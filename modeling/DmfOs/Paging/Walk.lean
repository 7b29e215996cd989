import DmfOs.Core.Align

/-!
# The two-level page walk

Linear addresses under 32-bit paging with 4 MB pages enabled. The walk reads
entries through an arbitrary load function, so it applies to tables in memory
and to tables given as values. A translation carries the access rights that
all levels grant.
-/

namespace DmfOs

/-- Where an address leads and what may be done there. -/
structure Translation where
  phys : Word
  writable : Bool
  user : Bool
  deriving DecidableEq, Repr

/-- The same physical address with at least the same rights. -/
structure Translation.Le (t t' : Translation) : Prop where
  phys_eq : t'.phys = t.phys
  writable : t.writable = true → t'.writable = true
  user : t.user = true → t'.user = true

theorem Translation.Le.refl (t : Translation) : t.Le t := ⟨rfl, id, id⟩

/-- The address of entry `i` of the table at `base`. -/
def entryAddr (base i : Word) : Word := base + 4 * i

/-- The directory index of a linear address. -/
def dirIndex (v : Word) : Word := v >>> 22

/-- The table index of a linear address. -/
def tableIndex (v : Word) : Word := (v >>> 12) &&& 0x3ff

/-- Translate a linear address from the directory in `cr3`. -/
def walk (load : Word → Word) (cr3 v : Word) : Option Translation :=
  let pde := load (entryAddr (cr3 &&& 0xfffff000) (dirIndex v))
  if !pde.getLsbD 0 then none
  else if pde.getLsbD 7 then
    some ⟨(pde &&& 0xffc00000) ||| (v &&& 0x3fffff), pde.getLsbD 1, pde.getLsbD 2⟩
  else
    let pte := load (entryAddr (pde &&& 0xfffff000) (tableIndex v))
    if !pte.getLsbD 0 then none
    else some ⟨(pte &&& 0xfffff000) ||| (v &&& 0xfff), pde.getLsbD 1 && pte.getLsbD 1,
      pde.getLsbD 2 && pte.getLsbD 2⟩

variable {load : Word → Word} {cr3 v pde pte : Word}

theorem toNat_dirIndex (v : Word) : (dirIndex v).toNat = v.toNat / 2 ^ 22 := by
  rw [dirIndex, BitVec.toNat_ushiftRight, Nat.shiftRight_eq_div_pow]

theorem toNat_tableIndex (v : Word) : (tableIndex v).toNat = v.toNat / 2 ^ 12 % 2 ^ 10 := by
  rw [tableIndex, BitVec.toNat_and, BitVec.toNat_ushiftRight, Nat.shiftRight_eq_div_pow]
  exact Nat.and_two_pow_sub_one_eq_mod _ 10

/-- An aligned directory address is its own base. -/
theorem and_frame_of_aligned {x : Word} (h : x.toNat % 4096 = 0) : x &&& 0xfffff000 = x := by
  have hp : IsPow2 4096 := ⟨12, rfl⟩
  apply BitVec.eq_of_toNat_eq
  have hmask := toNat_and_not_pred hp x
  rw [show ~~~(4096 - 1 : Word) = 0xfffff000 from rfl] at hmask
  change _ = x.toNat / 4096 * 4096 at hmask
  omega

/-- A directory entry that is not present translates nothing. -/
theorem walk_absent (hd : cr3.toNat % 4096 = 0) (hl : load (entryAddr cr3 (dirIndex v)) = pde)
    (hp : pde.getLsbD 0 = false) : walk load cr3 v = none := by
  simp only [walk, and_frame_of_aligned hd, hl, hp, Bool.not_false, ite_true]

/-- A large page translates by its directory entry alone. -/
theorem walk_large (hd : cr3.toNat % 4096 = 0) (hl : load (entryAddr cr3 (dirIndex v)) = pde)
    (hp : pde.getLsbD 0 = true) (hs : pde.getLsbD 7 = true) :
    walk load cr3 v = some ⟨(pde &&& 0xffc00000) ||| (v &&& 0x3fffff), pde.getLsbD 1,
      pde.getLsbD 2⟩ := by
  simp only [walk, and_frame_of_aligned hd, hl, hp, hs, Bool.not_true, Bool.false_eq_true,
    ite_false, ite_true]

/-- A small page translates by its directory and table entries. -/
theorem walk_small {table : Word} (hd : cr3.toNat % 4096 = 0)
    (hl : load (entryAddr cr3 (dirIndex v)) = pde) (hp : pde.getLsbD 0 = true)
    (hs : pde.getLsbD 7 = false) (ht : pde &&& 0xfffff000 = table)
    (hl' : load (entryAddr table (tableIndex v)) = pte) (hp' : pte.getLsbD 0 = true) :
    walk load cr3 v = some ⟨(pte &&& 0xfffff000) ||| (v &&& 0xfff),
      pde.getLsbD 1 && pte.getLsbD 1, pde.getLsbD 2 && pte.getLsbD 2⟩ := by
  simp only [walk, and_frame_of_aligned hd, hl, hp, hs, ht, hl', hp', Bool.not_true,
    Bool.false_eq_true, ite_false]

end DmfOs
