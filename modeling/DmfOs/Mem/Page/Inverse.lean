import DmfOs.Mem.Page.Complete

/-!
# Taking a block and giving it back

`alloc_pages` removes exactly the pages that it returns, and stores only where
it joins the list around them. A naturally aligned block that `free_pages` puts
in front of the list is the first run that the next scan meets, so
`alloc_pages` takes the same block and leaves the list as it was.
-/

namespace DmfOs

namespace PageState

variable {n alignMask mem size order : Word} {v : ScanVars} {s : PageState}
  {L P A B R : List Word} {i j : Nat}

/-- The head of the list stays unless the segment is cut out in front. -/
theorem FreeList.unlink_freelist (h : s.FreeList (A ++ R)) (hA : A ≠ []) (B : List Word) :
    (s.unlink A B).freelist = s.freelist := by
  obtain ⟨A, q, rfl⟩ := (List.eq_nil_or_concat A).resolve_left hA
  have hq : IsPage q := h.pages q (by simp)
  rw [PageState.unlink, if_pos (by simpa using hq.1)]

/-- Below order 32 the block has `2 ^ order` pages. -/
theorem toNat_orderPages_of_lt (ho : order.toNat < 32) :
    (orderPages order).toNat = 2 ^ order.toNat := by
  rw [toNat_orderPages, Nat.mod_eq_of_lt ho]

/-- `alloc_pages` removes exactly what it returns and stores only at the joint. -/
theorem FreeList.allocPages_removes (h : s.FreeList L) (ho : order.toNat < 20) :
    (∀ fuel, L.length < fuel → (PageState.allocPages fuel order s).isSome) ∧
      ∀ fuel p s', PageState.allocPages fuel order s = some (p, s') →
        (p = 0 → s' = s) ∧
          (p ≠ 0 → p.toNat % (2 ^ order.toNat * 4096) = 0 ∧
            ∃ A B, L = A ++ pageRun p (2 ^ order.toNat) ++ B ∧ s'.FreeList (A ++ B) ∧
              Memory.WritesIn (jointWord A) s.mem s'.mem ∧
              (A ≠ [] → s'.freelist = s.freelist)) := by
  have hpages := toNat_orderPages_of_lt (show order.toNat < 32 by omega)
  refine ⟨fun fuel hfuel => ?_, fun fuel p s' hr => ?_⟩
  · obtain ⟨r, hr⟩ := (h.allocPages order fuel).1 hfuel
    rw [hr]
    rfl
  · cases (h.allocPages order fuel).2 p s' hr with
    | refused => exact ⟨fun _ => rfl, fun hp => absurd rfl hp⟩
    | @served p A B split page order_lt aligned rest =>
      rw [hpages] at split aligned
      rw [Nat.mul_comm] at aligned
      have hcut : s.FreeList (A ++ (pageRun p (2 ^ order.toNat) ++ B)) := by
        rw [← List.append_assoc, ← split]
        exact h
      exact ⟨fun hp => absurd hp page.1, fun _ => ⟨Nat.mod_eq_zero_of_dvd aligned, A, B, split,
        rest, unlink_joint s A B, fun hA => hcut.unlink_freelist hA B⟩⟩

/-- A single page is taken from the front of a list of three. -/
theorem FreeList.allocPages_removes_page :
    ∃ p s', PageState.allocPages 4 0 brokenPair = some (p, s') ∧ p ≠ 0 ∧
      ∃ A B, [0x200000, 0x204000, 0x205000] = A ++ pageRun p 1 ++ B ∧ s'.FreeList (A ++ B) := by
  have hr : PageState.allocPages 4 0 brokenPair =
      some (0x200000, brokenPair.unlink [] [0x204000, 0x205000]) := rfl
  have hp : (0x200000 : Word) ≠ 0 := by simp
  have ho : (0 : Word).toNat < 20 := by decide
  obtain ⟨_, hres⟩ := FreeList.allocPages_removes brokenPair_freeList ho
  obtain ⟨_, A, B, hsplit, hlist, _⟩ := (hres 4 _ _ hr).2 hp
  exact ⟨_, _, hr, hp, A, B, hsplit, hlist⟩

/-! ## The block in front of the list -/

/-- The next page of an open run only moves the end of the run. -/
theorem ScanVars.track_extend (alignMask prev next : Word) (hrun : v.run ≠ 0) :
    v.track alignMask prev v.runNextPa next =
      { v with
        curr := v.runNextPa
        next := next
        runNextPa := v.runNextPa + pageSize
        run := v.run + 1 } := by
  simp only [ScanVars.track, if_neg hrun, ite_true]

/-- An open run whose missing pages come next on the list is completed and cut out. -/
theorem OpenRun.completes (ho : OpenRun alignMask P v A i) (hi : 0 < i) (hij : i + j = n.toNat)
    (hlink : Linked s.mem.load32 0 v.next (pageRun v.runNextPa j ++ B)) {fuel : Nat}
    (hf : j ≤ fuel) :
    (if v.run = n then
        some (v.runStart,
          if v.runPrev ≠ 0 then { s with mem := s.mem.store32 v.runPrev v.next }
          else { s with freelist := v.next })
      else allocPagesLoop n alignMask fuel v s) = some (v.runStart, s.unlink A B) := by
  have hn := n.isLt
  induction j generalizing P v i fuel with
  | zero =>
    have hrun : v.run = n := by
      rw [ho.run_eq]
      bv_omega
    have hnext : v.next = B.headD 0 := hlink.head_eq
    rw [if_pos hrun, unlink, ho.prev_eq, hnext]
  | succ j ih =>
    obtain ⟨fuel, rfl⟩ := Nat.exists_eq_add_of_le' (show 1 ≤ fuel by omega)
    rw [pageRun_succ_cons] at hlink
    obtain ⟨hnext, hne, hlink⟩ := hlink
    have hrun0 : v.run ≠ 0 := ho.run_ne_zero hi (by omega)
    have hrun : v.run ≠ n := by
      rw [ho.run_eq]
      bv_omega
    rw [if_neg hrun, allocPagesLoop_node hnext hne]
    have hext := ho.extend v.curr (s.mem.load32 v.runNextPa) hrun0 rfl
    rw [ScanVars.track_extend _ _ _ hrun0] at hext ⊢
    exact ih hext (by omega) (by omega) hlink (by omega)

/-- An aligned run in front of the list is what the scan returns. -/
theorem FreeList.allocPages_front (h : s.FreeList (pageRun mem (orderPages order).toNat ++ L))
    (ho : order.toNat % 32 < 20) (hal : 4096 * (orderPages order).toNat ∣ mem.toNat) {fuel : Nat}
    (hf : (orderPages order).toNat ≤ fuel) :
    PageState.allocPages fuel order s = some (mem, s.unlink [] L) := by
  obtain ⟨j, hj⟩ := Nat.exists_eq_add_of_le' (orderPages_pos order)
  obtain ⟨fuel, rfl⟩ := Nat.exists_eq_add_of_le' (show 1 ≤ fuel by omega)
  have hlink := h.linked
  rw [hj, pageRun_succ_cons] at hlink
  obtain ⟨hfirst, hne, hlink⟩ := hlink
  have hmask : mem &&& orderMask order = 0 := (and_orderMask_eq_zero ho mem).mpr hal
  rw [PageState.allocPages, allocPagesLoop_node hfirst hne]
  have hopen : OpenRun (orderMask order) ([] ++ [mem])
      (ScanVars.track ⟨0, s.freelist, 0, 0, 0, 0⟩ (orderMask order) 0 mem (s.mem.load32 mem))
      [] 1 := .start _ rfl hmask rfl
  simp only [ScanVars.track, ite_true, if_pos hmask] at hopen ⊢
  exact hopen.completes (by decide) (by omega) hlink (by omega)

/-- On a naturally aligned block of fresh pages `alloc_pages` undoes `free_pages`. -/
theorem FreeList.freePages_allocPages (h : s.FreeList L) (ho : order.toNat < 20)
    (hsize : size.toNat = 2 ^ order.toNat * 4096) (hne : mem ≠ 0) (hdvd : size.toNat ∣ mem.toNat)
    (hfresh : ∀ x ∈ pageRun mem (2 ^ order.toNat), x ∉ L) :
    ∃ s' s'', (∀ fuel, PageState.freePages fuel mem size s =
          if 2 ^ order.toNat ≤ fuel then some s' else none) ∧
      Memory.WritesIn (linkWords (pageRun mem (2 ^ order.toNat))) s.mem s'.mem ∧
      s'.FreeList (pageRun mem (2 ^ order.toNat) ++ L) ∧
      (∀ fuel, 2 ^ order.toNat ≤ fuel →
        PageState.allocPages fuel order s' = some (mem, s'')) ∧
      s''.FreeList L := by
  have hn := toNat_orderPages_of_lt (show order.toNat < 32 by omega)
  have ho' : order.toNat % 32 < 20 := by omega
  have hal : 4096 * (orderPages order).toNat ∣ mem.toNat := by
    rwa [hn, Nat.mul_comm, ← hsize]
  have hpos := orderPages_pos order
  rw [← hn] at hsize hfresh ⊢
  -- the block may end at the end of the address space, not past it
  have hfit : mem.toNat + 4096 * (orderPages order).toNat ≤ 2 ^ 32 := by
    have := mem.isLt
    have := Nat.le_of_dvd (by omega) (Nat.dvd_sub (orderPages_dvd ho') hal)
    omega
  have hpage : IsPage mem := ⟨hne, Nat.mod_eq_zero_of_dvd ((Nat.dvd_mul_right ..).trans hal)⟩
  rw [Nat.mul_comm] at hsize
  obtain ⟨s', hfree, hlist, hwrites⟩ := h.freePages hpos hsize
    (fun x hx => isPage_of_mem_pageRun hpage hfit hx) hfresh
  refine ⟨s', s'.unlink [] L, hfree, hwrites, hlist,
    fun fuel hf => hlist.allocPages_front ho' hal hf, ?_⟩
  exact FreeList.unlink (A := []) hlist

/-- The last two pages of the address space, put in front of three others and taken again. -/
theorem FreeList.freePages_allocPages_pair :
    ∃ s' s'' : PageState,
      PageState.freePages 2 0xffffe000 8192 brokenPair = some s' ∧
      s'.FreeList [0xffffe000, 0xfffff000, 0x200000, 0x204000, 0x205000] ∧
      PageState.allocPages 2 1 s' = some (0xffffe000, s'') ∧
      s''.FreeList [0x200000, 0x204000, 0x205000] := by
  have hsize : (8192 : Word).toNat = 2 ^ (1 : Word).toNat * 4096 := rfl
  have hdvd : (8192 : Word).toNat ∣ (0xffffe000 : Word).toNat := ⟨0x7ffff, rfl⟩
  have hfresh : ∀ x ∈ pageRun 0xffffe000 (2 ^ (1 : Word).toNat),
      x ∉ [0x200000, 0x204000, 0x205000] := by
    simp [pageRun, pageSize, List.range_succ]
  obtain ⟨s', s'', hfree, _, hlist, halloc, hend⟩ :=
    FreeList.freePages_allocPages brokenPair_freeList (by decide) hsize (by simp) hdvd hfresh
  exact ⟨s', s'', hfree 2, hlist, halloc 2 le_rfl, hend⟩

end PageState

end DmfOs
