import DmfOs.Core.Memory

/-!
# Stacks in memory

A stack that grows downward, as the list of the words from its pointer upward. Pushing
conses, popping takes the head, and stores apart from the words leave the list alone.
-/

namespace DmfOs

open Memory

/-- The words from the pointer upward. -/
structure StackAt (m : Memory) (sp : Word) (ws : List Word) : Prop where
  fits : sp.toNat + 4 * ws.length ≤ 2 ^ 32
  words : ∀ i (h : i < ws.length), m.load32 (sp + .ofNat 32 (4 * i)) = ws[i]

/-- Words pushed one after the other. -/
def Memory.pushes (m : Memory) (sp : Word) : List Word → Memory
  | [] => m
  | v :: vs => (m.store32 (sp - 4) v).pushes (sp - 4) vs

/-- Words stored one behind the other. -/
def Memory.storeWords (m : Memory) (a : Word) : List Word → Memory
  | [] => m
  | v :: vs => (m.store32 a v).storeWords (a + 4) vs

namespace StackAt

variable {m m' : Memory} {sp v : Word} {vs ws : List Word} {S : Set Word}

theorem nil (m : Memory) (sp : Word) : StackAt m sp [] :=
  ⟨sp.isLt.le, fun _ h => absurd h (Nat.not_lt_zero _)⟩

/-- The words of a stack are in its span. -/
theorem word_subset (sp : Word) {i : Nat} (hi : i < ws.length) :
    span (sp + .ofNat 32 (4 * i)) 4 ⊆ span sp (4 * ws.length) :=
  span_add_subset sp (by omega)

/-- Stores apart from the words. -/
theorem frame (h : StackAt m sp ws) (hw : WritesIn S m m')
    (hd : Disjoint (span sp (4 * ws.length)) S) : StackAt m' sp ws := by
  refine ⟨h.fits, fun i hi => ?_⟩
  rw [hw.load32_eq (hd.mono_left (word_subset sp hi)), h.words i hi]

/-- A push. -/
theorem push (h : StackAt m sp ws) (hroom : 4 ≤ sp.toNat) (v : Word) :
    StackAt (m.store32 (sp - 4) v) (sp - 4) (v :: ws) := by
  have hsp : (sp - 4).toNat = sp.toNat - 4 := by bv_omega
  have hfits := h.fits
  refine ⟨by rw [List.length_cons]; omega, fun i hi => ?_⟩
  cases i with
  | zero => simp
  | succ i =>
    have hi' : i < ws.length := by simpa using hi
    have haddr : sp - 4 + .ofNat 32 (4 * (i + 1)) = sp + .ofNat 32 (4 * i) := by bv_omega
    have hword : (sp + .ofNat 32 (4 * i)).toNat = sp.toNat + 4 * i := by
      have : sp.toNat + 4 * i < 2 ^ 32 := by omega
      rw [BitVec.toNat_add, BitVec.toNat_ofNat]
      omega
    rw [haddr, List.getElem_cons_succ, ← h.words i hi']
    refine (writesIn_store32 m (sp - 4) v).load32_eq (disjoint_span_of_le ?_ ?_).symm
    · omega
    · omega

/-- The word that a pop takes. -/
theorem head (h : StackAt m sp (v :: ws)) : m.load32 sp = v := by
  have h0 := h.words 0 (Nat.succ_pos _)
  have haddr : sp + .ofNat 32 (4 * 0) = sp := by simp
  rwa [haddr] at h0

/-- A pop. -/
theorem tail (h : StackAt m sp (v :: ws)) : StackAt m (sp + 4) ws := by
  cases ws with
  | nil => exact nil m _
  | cons w ws =>
    have hfits := h.fits
    rw [List.length_cons, List.length_cons] at hfits
    have hsp : (sp + 4).toNat = sp.toNat + 4 := by bv_omega
    refine ⟨by rw [List.length_cons]; omega, fun i hi => ?_⟩
    have hnext := h.words (i + 1) (Nat.succ_lt_succ hi)
    have haddr : sp + 4 + .ofNat 32 (4 * i) = sp + .ofNat 32 (4 * (i + 1)) := by bv_omega
    rw [haddr, hnext, List.getElem_cons_succ]

/-- What lies behind some words. -/
theorem drop (vs : List Word) (h : StackAt m sp (vs ++ ws)) :
    StackAt m (sp + .ofNat 32 (4 * vs.length)) ws := by
  induction vs generalizing sp with
  | nil =>
    have haddr : sp + .ofNat 32 (4 * 0) = sp := by simp
    rwa [List.length_nil, haddr]
  | cons v vs ih =>
    have haddr : sp + 4 + .ofNat 32 (4 * vs.length) = sp + .ofNat 32 (4 * (v :: vs).length) := by
      rw [List.length_cons]
      bv_omega
    rw [← haddr]
    exact ih h.tail

/-- Some words on top. -/
theorem take (vs : List Word) (h : StackAt m sp (vs ++ ws)) : StackAt m sp vs := by
  have hfits := h.fits
  rw [List.length_append] at hfits
  refine ⟨by omega, fun i hi => ?_⟩
  have hlt : i < (vs ++ ws).length := by
    rw [List.length_append]
    omega
  rw [h.words i hlt, List.getElem_append_left hi]

/-- Several pushes. -/
theorem pushes (h : StackAt m sp ws) (hroom : 4 * vs.length ≤ sp.toNat) :
    StackAt (m.pushes sp vs) (sp - .ofNat 32 (4 * vs.length)) (vs.reverse ++ ws) := by
  induction vs generalizing m sp ws with
  | nil =>
    have haddr : sp - .ofNat 32 (4 * 0) = sp := by simp
    rwa [List.length_nil, haddr]
  | cons v vs ih =>
    rw [List.length_cons] at hroom
    have hsp : (sp - 4).toNat = sp.toNat - 4 := by bv_omega
    have haddr : sp - 4 - .ofNat 32 (4 * vs.length) = sp - .ofNat 32 (4 * (v :: vs).length) := by
      rw [List.length_cons]
      bv_omega
    have hlist : (v :: vs).reverse ++ ws = vs.reverse ++ v :: ws := by simp
    rw [hlist, ← haddr]
    exact ih (h.push (by omega) v) (by omega)

/-- Pushes write below the pointer. -/
theorem writesIn_pushes (m : Memory) (hroom : 4 * vs.length ≤ sp.toNat) :
    WritesIn (span (sp - .ofNat 32 (4 * vs.length)) (4 * vs.length)) m (m.pushes sp vs) := by
  induction vs generalizing m sp with
  | nil => exact .refl _ _
  | cons v vs ih =>
    rw [List.length_cons] at hroom ⊢
    have hsp : (sp - 4).toNat = sp.toNat - 4 := by bv_omega
    have haddr : sp - 4 - .ofNat 32 (4 * vs.length) = sp - .ofNat 32 (4 * (vs.length + 1)) := by
      bv_omega
    have htop : sp - 4 = sp - .ofNat 32 (4 * (vs.length + 1)) + .ofNat 32 (4 * vs.length) := by
      bv_omega
    have hfirst : WritesIn (span (sp - .ofNat 32 (4 * (vs.length + 1))) (4 * (vs.length + 1)))
        m (m.store32 (sp - 4) v) := by
      rw [htop]
      exact (writesIn_store32 _ _ _).mono (span_add_subset _ (by omega))
    refine hfirst.trans ((ih _ (by omega)).mono ?_)
    rw [haddr]
    exact span_mono _ (by omega)

/-! ## Words stored upward -/

theorem writesIn_storeWords (m : Memory) (a : Word) (vs : List Word) :
    WritesIn (span a (4 * vs.length)) m (m.storeWords a vs) := by
  induction vs generalizing m a with
  | nil => exact .refl _ _
  | cons v vs ih =>
    have hlen : 4 * (v :: vs).length = 4 + 4 * vs.length := by
      rw [List.length_cons]
      omega
    have hrest := ih (m.store32 a v) (a + 4)
    rw [hlen]
    exact ((writesIn_store32 m a v).mono (span_mono _ (by omega))).trans
      (hrest.mono (span_add_subset a (k := 4) le_rfl))

/-- Words stored upward are a stack. -/
theorem storeWords (m : Memory) {a : Word} (h : a.toNat + 4 * vs.length ≤ 2 ^ 32) :
    StackAt (m.storeWords a vs) a vs := by
  induction vs generalizing m a with
  | nil => exact nil _ _
  | cons v vs ih =>
    refine ⟨h, fun i hi => ?_⟩
    rw [List.length_cons] at h hi
    cases i with
    | zero =>
      have haddr : a + .ofNat 32 (4 * 0) = a := by simp
      have hkept : Disjoint (span a 4) (span (a + 4) (4 * vs.length)) := by
        rcases Nat.eq_zero_or_pos vs.length with hvs | hvs
        · rw [hvs]
          exact Set.disjoint_left.mpr fun x _ hx => absurd hx (Nat.not_lt_zero _)
        · have hnext : (a + 4).toNat = a.toNat + 4 := by bv_omega
          exact disjoint_span_of_le (by omega) (by omega)
      have hrest := writesIn_storeWords (m.store32 a v) (a + 4) vs
      rw [haddr, List.getElem_cons_zero, Memory.storeWords, hrest.load32_eq hkept,
        load32_store32_self]
    | succ i =>
      have hi' : i < vs.length := by omega
      have hnext : (a + 4).toNat + 4 * vs.length ≤ 2 ^ 32 := by bv_omega
      have haddr : a + .ofNat 32 (4 * (i + 1)) = a + 4 + .ofNat 32 (4 * i) := by bv_omega
      rw [haddr, List.getElem_cons_succ]
      exact (ih _ hnext).words i hi'

end StackAt

end DmfOs
