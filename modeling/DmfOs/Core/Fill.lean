import DmfOs.Core.Memory

/-!
# Loops that store byte after byte

The bound of such a loop is read from memory again before every store. As long as the stores
leave the bound alone, the loop fills a span. Conversely, when all stores of a run are known to
hit a set, so do the stores of the loops in it, whose traces end that of the run.
-/

namespace DmfOs

namespace Memory

variable {S : Set Word} {m m₁ m' : Memory} {a : Word} {v : Byte}

/-! ## Traces of parts of a run -/

/-- A store of the run hits the set that all stores hit. -/
theorem WritesIn.mem_of_storeByte (h : WritesIn S m m')
    (hs : (m.storeByte a v).stores <:+ m'.stores) : a ∈ S := by
  obtain ⟨new, he, hn⟩ := h.trace
  obtain ⟨old, ho⟩ := hs
  have hparts : old ++ [a] = new := by
    apply (List.append_left_inj m.stores).mp
    rw [← he, ← ho, List.append_assoc]
    rfl
  apply hn a
  rw [← hparts]
  exact List.mem_append_right old (List.mem_singleton_self a)

/-- The rest of a run whose stores hit a set. -/
theorem WritesIn.rest (h : WritesIn S m m') (h₁ : WritesIn S m m₁)
    (hs : m₁.stores <:+ m'.stores) : WritesIn S m₁ m' := by
  obtain ⟨new, he, hn⟩ := h.trace
  obtain ⟨new₁, he₁, -⟩ := h₁.trace
  obtain ⟨old, ho⟩ := hs
  have hparts : old ++ new₁ = new := by
    apply (List.append_left_inj m.stores).mp
    rw [← he, ← ho, he₁, List.append_assoc]
  refine ⟨⟨old, ho.symm, fun x hx => hn x ?_⟩, fun x hx => ?_⟩
  · rw [← hparts]
    exact List.mem_append_left new₁ hx
  · rw [h.kept x hx, h₁.kept x hx]

/-! ## The loop -/

variable {bound : Memory → Word} {value : Word → Memory → Byte} {j dest : Word} {n : Nat}

/-- `for (; j < bound; j++) *dest++ = value`, compared without sign. -/
def storeLoop (bound : Memory → Word) (value : Word → Memory → Byte) (j dest : Word)
    (m : Memory) : Memory :=
  if j < bound m then
    storeLoop bound value (j + 1) (dest + 1) (m.storeByte dest (value j m))
  else m
termination_by 2 ^ 32 - j.toNat
decreasing_by
  have hlt := (bound m).isLt
  bv_omega

/-- The end of the loop. -/
theorem storeLoop_zero (hn : j.toNat + 0 = (bound m).toNat) :
    storeLoop bound value j dest m = m := by
  rw [storeLoop, if_neg]
  bv_omega

/-- One store. -/
theorem storeLoop_succ (hn : j.toNat + (n + 1) = (bound m).toNat) :
    storeLoop bound value j dest m =
      storeLoop bound value (j + 1) (dest + 1) (m.storeByte dest (value j m)) := by
  rw [storeLoop, if_pos]
  bv_omega

/-- The counter after a store that leaves the bound alone. -/
theorem counter_succ (hn : j.toNat + (n + 1) = (bound m).toNat) (hm : bound m₁ = bound m) :
    (j + 1).toNat + n = (bound m₁).toNat := by
  have hlt := (bound m).isLt
  rw [hm]
  bv_omega

/-- The loop only adds to the trace. -/
theorem stores_storeLoop (j dest : Word) (m : Memory) :
    m.stores <:+ (storeLoop bound value j dest m).stores := by
  induction j, dest, m using storeLoop.induct bound value with
  | case1 j dest m h ih =>
    rw [storeLoop, if_pos h]
    exact (List.suffix_cons dest m.stores).trans ih
  | case2 j dest m h =>
    have hend : storeLoop bound value j dest m = m := by rw [storeLoop, if_neg h]
    exact hend.symm ▸ List.suffix_rfl

variable (bound value)

/-- While the bound is left alone, the loop fills a span, each byte with the value at its
time. -/
theorem storeLoop_fills (hn : j.toNat + n = (bound m).toNat)
    (hbound : ∀ m₁, WritesIn (span dest n) m m₁ → bound m₁ = bound m) :
    WritesIn (span dest n) m (storeLoop bound value j dest m) ∧
      ∀ k < n, ∃ m₁, WritesIn (span dest n) m m₁ ∧
        (storeLoop bound value j dest m).byte (dest + .ofNat 32 k) =
          value (j + .ofNat 32 k) m₁ := by
  induction n generalizing j dest m with
  | zero =>
    rw [storeLoop_zero hn]
    exact ⟨.refl _ m, fun k hk => absurd hk (Nat.not_lt_zero k)⟩
  | succ n ih =>
    have hlt := (bound m).isLt
    have hstore (m₁ : Memory)
        (h₁ : WritesIn (span (dest + 1) n) (m.storeByte dest (value j m)) m₁) :
        WritesIn (span dest (n + 1)) m m₁ := h₁.of_storeByte
    have hkept := hbound _ (hstore _ (.refl _ _))
    obtain ⟨hwrites, hvalues⟩ := ih (counter_succ hn hkept) fun m₁ h₁ =>
      (hbound m₁ (hstore m₁ h₁)).trans hkept.symm
    rw [storeLoop_succ hn]
    refine ⟨hstore _ hwrites, fun k hk => ?_⟩
    cases k with
    | zero =>
      refine ⟨m, .refl _ m, ?_⟩
      rw [BitVec.add_zero, BitVec.add_zero, hwrites.byte_eq_of_storeByte (by omega)]
    | succ k =>
      obtain ⟨m₁, h₁, hv⟩ := hvalues k (by omega)
      have hstep (x : Word) : x + 1 + .ofNat 32 k = x + .ofNat 32 (k + 1) := by bv_omega
      rw [hstep, hstep] at hv
      exact ⟨m₁, hstore m₁ h₁, hv⟩

/-- Where every store of the run hits a set apart from the bound, the loop runs to its bound
within the set. -/
theorem storeLoop_forced (hn : j.toNat + n = (bound m).toNat)
    (hbound : ∀ m₁, WritesIn S m m₁ → bound m₁ = bound m) (h : WritesIn S m m')
    (hs : (storeLoop bound value j dest m).stores <:+ m'.stores) :
    WritesIn S m (storeLoop bound value j dest m) ∧ ∀ k < n, dest + .ofNat 32 k ∈ S := by
  induction n generalizing j dest m with
  | zero =>
    rw [storeLoop_zero hn]
    exact ⟨.refl S m, fun k hk => absurd hk (Nat.not_lt_zero k)⟩
  | succ n ih =>
    rw [storeLoop_succ hn] at hs ⊢
    have hs₁ := (stores_storeLoop _ _ _).trans hs
    have hdest := h.mem_of_storeByte hs₁
    have hstore : WritesIn S m (m.storeByte dest (value j m)) :=
      writesIn_storeByte_of_mem m _ hdest
    have hkept := hbound _ hstore
    obtain ⟨hwrites, hin⟩ := ih (counter_succ hn hkept)
      (fun m₁ h₁ => (hbound m₁ (hstore.trans h₁)).trans hkept.symm) (h.rest hstore hs₁) hs
    refine ⟨hstore.trans hwrites, fun k hk => ?_⟩
    cases k with
    | zero => rwa [BitVec.add_zero]
    | succ k =>
      have hstep : dest + 1 + .ofNat 32 k = dest + .ofNat 32 (k + 1) := by bv_omega
      rw [← hstep]
      exact hin k (by omega)

end Memory

end DmfOs
