import DmfOs.Mem.Page.Transfer
import DmfOs.Core.Run

/-!
# Ownership of pages over whole runs

A world is the allocator with a ledger kept outside it: the pages its clients
own and the pages ever put in. Clients free what they own or donate fresh
pages, and write anywhere but into free pages. Every such run keeps the pages
ever put in partitioned into the free list and the owned pages.
-/

namespace DmfOs

/-- What a client does next. -/
inductive PageOp where
  | allocPage
  | allocPages (order : Word)
  | freePage (page : Word)
  | freePages (mem size : Word)
  /-- Store a byte somewhere outside the free pages. -/
  | write (addr : Word) (v : Byte)

/-- The allocator and the ledger of its clients. -/
structure PageWorld where
  state : PageState
  /-- Pages that clients hold. -/
  owned : Set Word
  /-- Pages ever put in. -/
  ever : Set Word

namespace PageWorld

open PageState

/-- The page is on the list that the links spell out. -/
def OnFreeList (w : PageWorld) (p : Word) : Prop :=
  ∃ L, Linked w.state.mem.load32 0 w.state.freelist L ∧ p ∈ L

/-- A page that a client may free: its own, or a fresh one. -/
def Releasable (w : PageWorld) (p : Word) : Prop :=
  p ∈ w.owned ∨ (IsPage p ∧ p ∉ w.ever)

/-- What the clients are allowed to do. -/
def Allowed (w : PageWorld) : PageOp → Prop
  | .allocPage => True
  | .allocPages order => order.toNat < 20
  | .freePage page => w.Releasable page
  | .freePages mem size => size ≠ 0 ∧ 4096 ∣ size.toNat ∧
      ∀ p ∈ pageRun mem (size.toNat / 4096), w.Releasable p
  | .write addr _ => ∀ p, w.OnFreeList p → addr ∉ Memory.span p 4096

/-- The ledger after a client received the pages `P`. -/
def take (w : PageWorld) (s : PageState) (P : List Word) : PageWorld :=
  ⟨s, w.owned ∪ {p | p ∈ P}, w.ever⟩

/-- The ledger after a client gave the pages `P`. -/
def give (w : PageWorld) (s : PageState) (P : List Word) : PageWorld :=
  ⟨s, w.owned \ {p | p ∈ P}, w.ever ∪ {p | p ∈ P}⟩

/-- One operation of a client, with any fuel that lets it return. -/
inductive Step (w : PageWorld) : PageOp → PageWorld → Prop
  | allocPage {p : Word} {s : PageState} : PageState.allocPage w.state = (p, s) →
      Step w .allocPage (w.take s (if p = 0 then [] else [p]))
  | allocPages {order p : Word} {s : PageState} (fuel : Nat) :
      PageState.allocPages fuel order w.state = some (p, s) →
      Step w (.allocPages order) (w.take s (if p = 0 then [] else pageRun p (2 ^ order.toNat)))
  | freePage {page : Word} :
      Step w (.freePage page) (w.give (PageState.freePage page w.state) [page])
  | freePages {mem size : Word} {s : PageState} (fuel : Nat) :
      PageState.freePages fuel mem size w.state = some s →
      Step w (.freePages mem size) (w.give s (pageRun mem (size.toNat / 4096)))
  | write {addr : Word} {v : Byte} :
      Step w (.write addr v) { w with state.mem := w.state.mem.storeByte addr v }

/-- An operation that the clients are allowed. -/
def LegalStep (w : PageWorld) (op : PageOp) (w' : PageWorld) : Prop :=
  w.Allowed op ∧ w.Step op w'

/-- The free list is `L`, and every page ever put in is either on it or owned. -/
structure Partition (w : PageWorld) (L : List Word) : Prop where
  freeList : w.state.FreeList L
  nodup : L.Nodup
  ownedPages : ∀ p ∈ w.owned, IsPage p
  apart : ∀ p ∈ L, p ∉ w.owned
  covers : ∀ p, p ∈ w.ever ↔ p ∈ L ∨ p ∈ w.owned

variable {w w' : PageWorld} {L A B R : List Word} {s : PageState} {p : Word}

/-- Moving a segment of the list to its client keeps the partition. -/
theorem Partition.take (h : w.Partition (A ++ R ++ B)) (hs : s.FreeList (A ++ B)) :
    (w.take s R).Partition (A ++ B) := by
  have hnd := h.nodup
  constructor
  · exact hs
  · exact hs.nodup
  · rintro p (hp | hp)
    · exact h.ownedPages p hp
    · exact h.freeList.pages p (by simp [show p ∈ R from hp])
  · rintro p hp (ho | hR)
    · exact h.apart p (by rcases List.mem_append.mp hp with hp | hp <;> simp [hp]) ho
    · change p ∈ R at hR
      grind
  · intro p
    change p ∈ w.ever ↔ p ∈ A ++ B ∨ (p ∈ w.owned ∨ p ∈ R)
    rw [h.covers p]
    simp only [List.mem_append]
    tauto

/-- Nothing moves when nothing is taken. -/
theorem take_nil (w : PageWorld) : w.take w.state [] = w := by
  simp [PageWorld.take]

/-- Moving pages to the front of the list keeps the partition. -/
theorem Partition.give (h : w.Partition L) (hs : s.FreeList (R ++ L)) :
    (w.give s R).Partition (R ++ L) := by
  constructor
  · exact hs
  · exact hs.nodup
  · rintro p ⟨hp, _⟩
    exact h.ownedPages p hp
  · rintro p hp ⟨ho, hn⟩
    rcases List.mem_append.mp hp with hp | hp
    · exact hn hp
    · exact h.apart p hp ho
  · intro p
    change p ∈ w.ever ∨ p ∈ R ↔ p ∈ R ++ L ∨ (p ∈ w.owned ∧ p ∉ R)
    rw [h.covers p, List.mem_append]
    tauto

/-- A releasable page is a usable page that is not free. -/
theorem Partition.releasable (h : w.Partition L) (hp : w.Releasable p) : IsPage p ∧ p ∉ L := by
  rcases hp with hp | ⟨hp, hn⟩
  · exact ⟨h.ownedPages p hp, fun hL => h.apart p hL hp⟩
  · exact ⟨hp, fun hL => hn ((h.covers p).mpr (Or.inl hL))⟩

/-- The list that the links spell out is the one of the partition. -/
theorem Partition.onFreeList (h : w.Partition L) (hp : p ∈ L) : w.OnFreeList p :=
  ⟨L, h.freeList.linked, hp⟩

/-- The pages of a freed block. -/
theorem Partition.freePages (h : w.Partition L) {mem size : Word}
    (ha : w.Allowed (.freePages mem size)) :
    ∃ s, (∀ fuel, PageState.freePages fuel mem size w.state =
        if size.toNat / 4096 ≤ fuel then some s else none) ∧
      s.FreeList (pageRun mem (size.toNat / 4096) ++ L) := by
  obtain ⟨hne, hdvd, hpages⟩ := ha
  have hpos : size.toNat ≠ 0 := by bv_omega
  have hsize : size.toNat = 4096 * (size.toNat / 4096) := (Nat.mul_div_cancel' hdvd).symm
  obtain ⟨s, hs, hl, _⟩ := h.freeList.freePages (by omega) hsize
    (fun x hx => (h.releasable (hpages x hx)).1) (fun x hx => (h.releasable (hpages x hx)).2)
  exact ⟨s, hs, hl⟩

/-- Every allowed operation keeps the partition. -/
theorem Partition.step (h : w.Partition L) {op : PageOp} (ha : w.Allowed op)
    (hs : w.Step op w') : ∃ L', w'.Partition L' := by
  cases hs with
  | @allocPage p s he =>
    cases L with
    | nil =>
      have h0 : w.state.freelist = 0 := h.freeList.linked
      rw [PageState.allocPage, if_pos h0] at he
      obtain ⟨rfl, rfl⟩ := Prod.mk.inj he
      rw [if_pos rfl, take_nil]
      exact ⟨[], h⟩
    | cons x L =>
      obtain ⟨hx, hne, hL⟩ := h.freeList.linked
      rw [PageState.allocPage, if_neg (hx ▸ hne)] at he
      obtain ⟨rfl, rfl⟩ := Prod.mk.inj he
      rw [if_neg (hx ▸ hne), hx]
      have hrest : FreeList { w.state with freelist := w.state.mem.load32 x } ([] ++ L) :=
        ⟨hL, fun q hq => h.freeList.pages q (List.mem_cons_of_mem _ hq)⟩
      exact ⟨L, Partition.take (A := []) (R := [x]) h hrest⟩
  | @allocPages order p s fuel he =>
    cases (h.freeList.allocPages order fuel).2 _ _ he with
    | refused =>
      rw [if_pos rfl, take_nil]
      exact ⟨L, h⟩
    | @served p A B split page order_lt aligned rest =>
      have hcount : (orderPages order).toNat = 2 ^ order.toNat := by
        rw [toNat_orderPages, Nat.mod_eq_of_lt (lt_trans ha (by decide))]
      rw [if_neg page.1, ← hcount]
      exact ⟨A ++ B, Partition.take (split ▸ h) rest⟩
  | @freePage page =>
    have hp := h.releasable ha
    exact ⟨_, h.give (h.freeList.push hp.1 hp.2)⟩
  | @freePages mem size s fuel he =>
    obtain ⟨s', hs', hl⟩ := h.freePages ha
    rw [hs' fuel] at he
    split_ifs at he
    obtain rfl := Option.some.inj he
    exact ⟨_, h.give hl⟩
  | @write addr v =>
    refine ⟨L, h.freeList.frame (Memory.writesIn_storeByte _ _ _) fun p hp => ?_, h.nodup,
      h.ownedPages, h.apart, h.covers⟩
    rw [Set.disjoint_singleton_right]
    exact fun hx => ha p (h.onFreeList hp) (Memory.span_mono p (by decide) hx)

/-- Every allowed operation returns. -/
theorem Partition.progress (h : w.Partition L) {op : PageOp} (ha : w.Allowed op) :
    ∃ w', w.Step op w' := by
  cases op with
  | allocPage => exact ⟨_, .allocPage rfl⟩
  | allocPages order =>
    obtain ⟨⟨p, s⟩, hr⟩ := (h.freeList.allocPages order (L.length + 1)).1 (Nat.lt_succ_self _)
    exact ⟨_, .allocPages _ hr⟩
  | freePage page => exact ⟨_, .freePage⟩
  | freePages mem size =>
    obtain ⟨s, hs, _⟩ := h.freePages ha
    exact ⟨_, .freePages (size.toNat / 4096) ((hs _).trans (if_pos le_rfl))⟩
  | write addr v => exact ⟨_, .write⟩

/-- From any well-formed free list, every run of allowed operations keeps the
pages ever put in partitioned into a well-formed free list and the owned pages,
and the next allowed operation returns. -/
theorem reach_partition {s : PageState} {L : List Word} (h : s.FreeList L) {ops : List PageOp}
    {w : PageWorld} (hr : Reach LegalStep ⟨s, ∅, {p | p ∈ L}⟩ ops w) :
    (∃ L', w.Partition L') ∧ ∀ op, w.Allowed op → ∃ w', w.Step op w' := by
  have hstart : Partition ⟨s, ∅, {p | p ∈ L}⟩ L :=
    ⟨h, h.nodup, fun _ hp => hp.elim, fun _ _ hp => hp.elim, fun p => by simp⟩
  have hpart : ∃ L', w.Partition L' :=
    Reach.invariant (fun w => ∃ L', w.Partition L') hr ⟨L, hstart⟩
      fun _ _ _ ⟨_, hp⟩ hs => hp.step hs.1 hs.2
  refine ⟨hpart, fun op ha => ?_⟩
  obtain ⟨_, hp⟩ := hpart
  exact hp.progress ha

/-- Three free pages in a row. -/
def threePages : PageState where
  mem := ((Memory.store32 ⟨fun _ => 0, []⟩ 0x200000 0x201000).store32 0x201000 0x202000).store32
    0x202000 0
  freelist := 0x200000

/-- They are all that was ever put in. -/
def allFree : PageWorld := ⟨threePages, ∅, {p | p ∈ [0x200000, 0x201000, 0x202000]}⟩

/-- Two of them are taken at once and one of the two is given back; then two fresh pages are
put in. -/
theorem reach_partition_allFree :
    ∃ w, Reach LegalStep allFree
        [.allocPages 1, .freePage 0x201000, .freePages 0x400000 8192] w ∧
      (∃ L', w.Partition L') ∧ ∃ w', w.Step (.allocPages 1) w' := by
  have hlist : threePages.FreeList [0x200000, 0x201000, 0x202000] :=
    ⟨by decide, by simp [IsPage]⟩
  have halloc : PageState.allocPages 2 1 allFree.state =
      some (0x200000, threePages.unlink [] [0x202000]) := rfl
  have htwo (w : PageWorld) : w.Allowed (.allocPages 1) := show (1 : Word).toNat < 20 by decide
  -- one of the two pages stays with the client
  have htake := Step.allocPages 2 halloc
  rw [if_neg (by decide)] at htake
  have hback : (allFree.take (threePages.unlink [] [0x202000]) (pageRun 0x200000 2)).Allowed
      (.freePage 0x201000) :=
    Or.inl (Or.inr (show (0x201000 : Word) ∈ pageRun 0x200000 2 by decide))
  have hrun := (Reach.snoc (R := LegalStep) .nil ⟨htwo _, htake⟩).snoc ⟨hback, .freePage⟩
  -- the pages put in were never there
  have hpage : IsPage 0x400000 := ⟨by decide, rfl⟩
  have hfresh : ∀ p ∈ pageRun 0x400000 2,
      p ∉ ([0x200000, 0x201000, 0x202000] ++ [0x201000] : List Word) := by
    simp [pageRun, pageSize, List.range_succ]
  have hput : ((allFree.take (threePages.unlink [] [0x202000]) (pageRun 0x200000 2)).give
      (PageState.freePage 0x201000 (threePages.unlink [] [0x202000])) [0x201000]).Allowed
        (.freePages 0x400000 8192) :=
    ⟨by decide, ⟨2, rfl⟩, fun p hp => Or.inr ⟨isPage_of_mem_pageRun hpage (by decide) hp,
      fun hold => hfresh p hp (List.mem_append.mpr hold)⟩⟩
  obtain ⟨w, hstep⟩ := (reach_partition hlist hrun).2 _ hput
  have hall := hrun.snoc ⟨hput, hstep⟩
  obtain ⟨hpart, hnext⟩ := reach_partition hlist hall
  exact ⟨w, hall, hpart, hnext (.allocPages 1) (htwo w)⟩

end PageWorld

end DmfOs
