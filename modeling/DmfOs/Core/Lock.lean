import DmfOs.Core.Commands
import DmfOs.Core.Run
import Mathlib.Logic.Function.Basic

/-!
# Jobs under a test-and-set lock

Any number of tasks, each with a list of jobs, and one lock word. A task takes the lock by
an atomic exchange that it repeats until it gets back zero, runs the commands of one job,
and stores zero. Tasks and environment step in any order. At most one task is inside, each
task does its jobs in its order, and the shared state is one that the jobs lead to when
they run one after the other, in the order in which they took the lock.
-/

namespace DmfOs

variable {ι μ α κ σ : Type*} [DecidableEq ι] {n : Nat}

/-- A job under way: the job, what is left of its code, and its locals. -/
structure Inside (μ α κ : Type*) where
  job : μ
  code : List α
  loc : κ

/-- The lock word, the tasks, and the shared state. -/
structure LockWorld (ι : Type*) (n : Nat) (μ α κ σ : Type*) where
  v : BitVec n
  inside : ι → Option (Inside μ α κ)
  todo : ι → List μ
  /-- The jobs that took the lock so far, in order, with their tasks. -/
  log : List (ι × μ)
  shared : σ

/-- Who takes a step. -/
inductive LockTurn (ι : Type*)
  | lock (i : ι)
  | work (i : ι)
  | unlock (i : ι)
  | env

namespace LockWorld

variable (M : Machine α κ σ) (enter : μ → List α × κ) {w w' : LockWorld ι n μ α κ σ}
  {i j : ι} {t : LockTurn ι} {ts : List (LockTurn ι)} {m : μ} {ms : List μ}

/-- Nobody is inside. -/
def initial (todo : ι → List μ) (s : σ) : LockWorld ι n μ α κ σ := ⟨0#n, fun _ => none, todo, [], s⟩

/-- A command of the job that a task is inside with. -/
def work (w : LockWorld ι n μ α κ σ) (i : ι) (p : Inside μ α κ) (a : α) (l : List α) :
    LockWorld ι n μ α κ σ :=
  { w with
    inside := Function.update w.inside i
      (some ⟨p.job, (M.exec a p.loc w.shared).1 ++ l, (M.exec a p.loc w.shared).2.1⟩)
    shared := (M.exec a p.loc w.shared).2.2 }

/-- The release of the lock. -/
def unlock (w : LockWorld ι n μ α κ σ) (i : ι) : LockWorld ι n μ α κ σ :=
  { w with v := 0#n, inside := Function.update w.inside i none }

/-! ## Jobs one after the other -/

/-- The shared states that jobs lead to when each starts after the one before has ended. -/
inductive Serial (s : σ) : List μ → σ → Prop
  | nil : Serial s [] s
  | env {ms : List μ} {t u : σ} : Serial s ms t → M.env t u → Serial s ms u
  | job {ms : List μ} {t u : σ} {m : μ} {x : κ} : Serial s ms t →
      M.Runs ⟨(enter m).1, (enter m).2, t⟩ ⟨[], x, u⟩ → Serial s (ms ++ [m]) u

/-- The lock is taken exactly while a task is inside, one task at most is inside, each task
does its jobs in order, and the shared state comes from the jobs one after the other, with
the last one under way while a task is inside. -/
structure Sound (todo : ι → List μ) (s : σ) (w : LockWorld ι n μ α κ σ) : Prop where
  taken : w.v ≠ 0#n ↔ ∃ i, w.inside i ≠ none
  one : ∀ i j, w.inside i ≠ none → w.inside j ≠ none → i = j
  order : ∀ i, (w.log.filter (·.1 = i)).map Prod.snd ++ w.todo i = todo i
  idle : (∀ i, w.inside i = none) → Serial M enter s (w.log.map Prod.snd) w.shared
  busy : ∀ i p, w.inside i = some p → ∃ ms t, w.log.map Prod.snd = ms ++ [p.job] ∧
    Serial M enter s ms t ∧
      M.Runs ⟨(enter p.job).1, (enter p.job).2, t⟩ ⟨p.code, p.loc, w.shared⟩

theorem sound_initial (todo : ι → List μ) (s : σ) :
    Sound M enter todo s (initial todo s : LockWorld ι n μ α κ σ) where
  taken := by simp [initial]
  one i j h := absurd rfl h
  order i := rfl
  idle _ := .nil
  busy i p h := nomatch h

variable {M enter} {todo : ι → List μ} {s : σ} {p : Inside μ α κ} {a : α} {l : List α}

/-- While a task is inside, no other one is. -/
theorem Sound.others (h : Sound M enter todo s w) (hi : w.inside i = some p) (hj : j ≠ i) :
    w.inside j = none := by
  by_contra hne
  exact hj (h.one j i hne (by rw [hi]; exact Option.some_ne_none p))

/-- The lock is free and nobody is inside. -/
theorem Sound.nobody (h : Sound M enter todo s w) (hv : w.v = 0#n) (i : ι) : w.inside i = none := by
  by_contra hne
  exact h.taken.mpr ⟨i, hne⟩ hv

theorem Sound.work (h : Sound M enter todo s w) (hi : w.inside i = some p)
    (hc : p.code = a :: l) : Sound M enter todo s (w.work M i p a l) := by
  have hinside (j : ι) : (w.work M i p a l).inside j ≠ none ↔ w.inside j ≠ none := by
    rcases eq_or_ne j i with rfl | hne
    · simp [LockWorld.work, hi]
    · simp only [LockWorld.work, Function.update_of_ne hne]
  refine ⟨?_, fun j k hj hk => h.one j k ((hinside j).mp hj) ((hinside k).mp hk), h.order,
    fun hall => ?_, fun j q hj => ?_⟩
  · rw [exists_congr hinside]
    exact h.taken
  · exact absurd (hall i) (by simp [LockWorld.work])
  · rcases eq_or_ne j i with rfl | hne
    · cases (Function.update_self ..).symm.trans hj
      obtain ⟨ms, t, hlog, hser, hrun⟩ := h.busy j p hi
      rw [hc] at hrun
      exact ⟨ms, t, hlog, hser, hrun.tail (.exec a l p.loc w.shared)⟩
    · have hnone := (Function.update_of_ne hne _ _).symm.trans hj
      exact nomatch (h.others hi hne).symm.trans hnone

theorem Sound.unlock (h : Sound M enter todo s w) (hi : w.inside i = some p)
    (hc : p.code = []) : Sound M enter todo s (w.unlock i) := by
  have hnone (j : ι) : (w.unlock i).inside j = none := by
    rcases eq_or_ne j i with rfl | hne
    · exact Function.update_self ..
    · exact (Function.update_of_ne hne _ _).trans (h.others hi hne)
  refine ⟨?_, fun j _ hj => absurd (hnone j) hj, h.order, fun _ => ?_, fun j q hj => ?_⟩
  · exact iff_of_false (not_not.mpr rfl) fun ⟨j, hj⟩ => hj (hnone j)
  · obtain ⟨ms, t, hlog, hser, hrun⟩ := h.busy i p hi
    rw [hc] at hrun
    exact hlog ▸ hser.job hrun
  · exact nomatch (hnone j).symm.trans hj

theorem Sound.env {u : σ} (h : Sound M enter todo s w) (he : M.env w.shared u) :
    Sound M enter todo s { w with shared := u } := by
  refine ⟨h.taken, h.one, h.order, fun hall => (h.idle hall).env he, fun i p hi => ?_⟩
  obtain ⟨ms, t, hlog, hser, hrun⟩ := h.busy i p hi
  exact ⟨ms, t, hlog, hser, hrun.tail (.env _ _ he)⟩

/-! ## What each job keeps -/

/-- What holds at the start, is kept by the environment, and is led from one job to the
next, holds after any jobs. -/
theorem Serial.holds {I : List μ → σ → Prop} {J : List μ → μ → κ → σ → Prop} {u : σ}
    (h : Serial M enter s ms u) (h0 : I [] s) (henv : ∀ ms t u, M.env t u → I ms t → I ms u)
    (hjob : ∀ ms m, M.Triple (J ms m) (fun x t => x = (enter m).2 ∧ I ms t) (enter m).1
      fun _ t => I (ms ++ [m]) t) : I ms u := by
  induction h with
  | nil => exact h0
  | env _ he ih => exact henv _ _ _ he ih
  | job _ hrun ih => exact (hjob _ _ _ _ ⟨rfl, ih⟩ _ hrun).2 rfl

/-- And while a job is under way, what it keeps holds. -/
theorem Sound.holds {I : List μ → σ → Prop} {J : List μ → μ → κ → σ → Prop}
    (h : Sound M enter todo s w) (h0 : I [] s) (henv : ∀ ms t u, M.env t u → I ms t → I ms u)
    (hjob : ∀ ms m, M.Triple (J ms m) (fun x t => x = (enter m).2 ∧ I ms t) (enter m).1
      fun _ t => I (ms ++ [m]) t) :
    ((∀ i, w.inside i = none) → I (w.log.map Prod.snd) w.shared) ∧
      ∀ i p, w.inside i = some p →
        ∃ ms, w.log.map Prod.snd = ms ++ [p.job] ∧ J ms p.job p.loc w.shared := by
  refine ⟨fun hall => (h.idle hall).holds h0 henv hjob, fun i p hi => ?_⟩
  obtain ⟨ms, t, hlog, hser, hrun⟩ := h.busy i p hi
  exact ⟨ms, hlog, (hjob ms p.job _ t ⟨rfl, hser.holds h0 henv hjob⟩ _ hrun).1⟩

/-! ## Interleavings -/

/-- One turn of the loop that takes the lock. -/
def lock (enter : μ → List α × κ) (w : LockWorld ι n μ α κ σ) (i : ι) (m : μ)
    (ms : List μ) : LockWorld ι n μ α κ σ :=
  let old := w.v
  let w := { w with v := 1#n }
  if old ≠ 0#n then w
  else
    { w with
      inside := Function.update w.inside i (some ⟨m, (enter m).1, (enter m).2⟩)
      todo := Function.update w.todo i ms
      log := w.log ++ [(i, m)] }

/-- A step of the world. -/
inductive Turns (M : Machine α κ σ) (enter : μ → List α × κ) :
    LockWorld ι n μ α κ σ → LockTurn ι → LockWorld ι n μ α κ σ → Prop
  | lock {w : LockWorld ι n μ α κ σ} {i : ι} {m : μ} {ms : List μ} :
      w.inside i = none → w.todo i = m :: ms → Turns M enter w (.lock i) (lock enter w i m ms)
  | work {w : LockWorld ι n μ α κ σ} {i : ι} {p : Inside μ α κ} {a : α} {l : List α} :
      w.inside i = some p → p.code = a :: l → Turns M enter w (.work i) (w.work M i p a l)
  | unlock {w : LockWorld ι n μ α κ σ} {i : ι} {p : Inside μ α κ} :
      w.inside i = some p → p.code = [] → Turns M enter w (.unlock i) (w.unlock i)
  | env {w : LockWorld ι n μ α κ σ} {s : σ} :
      M.env w.shared s → Turns M enter w .env { w with shared := s }

/-- The steps of a job that is under way are steps of the world. -/
theorem reach_runs (enter : μ → List α × κ) {c : Config α κ σ} (hi : w.inside i = some p)
    (hrun : M.Runs ⟨p.code, p.loc, w.shared⟩ c) :
    ∃ ts, Reach (Turns M enter) w ts
      { w with
        inside := Function.update w.inside i (some ⟨p.job, c.code, c.loc⟩)
        shared := c.shared } := by
  induction hrun with
  | refl =>
    refine ⟨[], Reach.nil_iff.mpr ?_⟩
    rw [← hi, Function.update_eq_self]
  | @tail b c _ hs ih =>
    obtain ⟨ts, hr⟩ := ih
    cases hs with
    | exec a l x u =>
      refine ⟨_, hr.snoc (i := .work i) ?_⟩
      have hw : Turns M enter _ _ _ := .work (i := i) (p := ⟨p.job, a :: l, x⟩)
        (w := { w with
          inside := Function.update w.inside i (some ⟨p.job, a :: l, x⟩), shared := u })
        (Function.update_self ..) rfl
      simpa only [LockWorld.work, Function.update_idem] using hw
    | env l x he => exact ⟨_, hr.snoc (i := .env) (.env he)⟩

/-- A task that is inside can come out. -/
theorem exists_unlock (enter : μ → List α × κ) (hends : ∀ l, M.Ends l) (hi : w.inside i = some p) :
    ∃ ts u, Reach (Turns M enter) w ts { w.unlock i with shared := u } := by
  obtain ⟨x, u, hrun⟩ := hends p.code p.loc w.shared
  obtain ⟨ts, hr⟩ := reach_runs enter hi hrun
  refine ⟨_, u, hr.snoc (i := .unlock i) ?_⟩
  have hw : Turns M enter _ _ _ := .unlock (i := i) (p := ⟨p.job, [], x⟩)
    (w := { w with inside := Function.update w.inside i (some ⟨p.job, [], x⟩), shared := u })
    (Function.update_self ..) rfl
  simpa only [LockWorld.unlock, Function.update_idem] using hw

/-- From every state the tasks can come to one where the lock is free, without a new job. -/
theorem Sound.exists_idle (h : Sound M enter todo s w) (hends : ∀ l, M.Ends l) :
    ∃ ts w', Reach (Turns M enter) w ts w' ∧ w'.v = 0#n ∧ w'.todo = w.todo := by
  by_cases hv : w.v = 0#n
  · exact ⟨[], w, .nil, hv, rfl⟩
  · obtain ⟨i, hi⟩ := h.taken.mp hv
    obtain ⟨p, hp⟩ := Option.ne_none_iff_exists'.mp hi
    obtain ⟨ts, u, hr⟩ := exists_unlock enter hends hp
    exact ⟨ts, _, hr, rfl, rfl⟩

/-- The two values of the lock word differ. -/
theorem one_ne_zero_of_ne (hn : n ≠ 0) : 1#n ≠ 0#n := by
  intro h
  have hmod : 1 % 2 ^ n = 0 := by simpa using congrArg BitVec.toNat h
  rw [Nat.mod_eq_of_lt (Nat.one_lt_two_pow hn)] at hmod
  exact Nat.one_ne_zero hmod

theorem Sound.lock (hn : n ≠ 0) (h : Sound M enter todo s w) (hi : w.todo i = m :: ms) :
    Sound M enter todo s (lock enter w i m ms) := by
  by_cases hv : w.v = 0#n
  · have hnone := h.nobody hv
    rw [LockWorld.lock, if_neg (not_not.mpr hv)]
    refine ⟨?_, fun j k hj hk => ?_, fun j => ?_, fun hall => ?_, fun j p hj => ?_⟩
    · exact iff_of_true (one_ne_zero_of_ne hn) ⟨i, by simp⟩
    · have hself (j : ι)
          (hj : Function.update w.inside i (some ⟨m, (enter m).1, (enter m).2⟩) j ≠ none) :
          j = i := by
        by_contra hne
        rw [Function.update_of_ne hne] at hj
        exact hj (hnone j)
      exact (hself j hj).trans (hself k hk).symm
    · have hord := h.order j
      rcases eq_or_ne j i with rfl | hne
      · rw [hi] at hord
        simpa using hord
      · simpa [Function.update_of_ne hne, hne.symm] using hord
    · exact absurd (hall i) (by simp)
    · rcases eq_or_ne j i with rfl | hne
      · cases (Function.update_self ..).symm.trans hj
        exact ⟨_, _, by simp, h.idle hnone, .refl⟩
      · exact nomatch (hnone j).symm.trans ((Function.update_of_ne hne _ _).symm.trans hj)
  · rw [LockWorld.lock, if_pos hv]
    exact ⟨iff_of_true (one_ne_zero_of_ne hn) (h.taken.mp hv), h.one, h.order, h.idle, h.busy⟩

theorem Sound.turns (hn : n ≠ 0) (h : Sound M enter todo s w) (ht : Turns M enter w t w') :
    Sound M enter todo s w' := by
  cases ht with
  | lock _ hi => exact h.lock hn hi
  | work hi hc => exact h.work hi hc
  | unlock hi hc => exact h.unlock hi hc
  | env he => exact h.env he

/-- Every state of every interleaving is sound. -/
theorem sound_reach (hn : n ≠ 0) (h : Reach (Turns M enter) (initial todo s) ts w) :
    Sound M enter todo s w :=
  h.invariant _ (sound_initial M enter todo s) fun _ _ _ hs ht => hs.turns hn ht

/-! ## Nothing is stuck -/

/-- From every state a task can come to the end of its jobs. -/
theorem Sound.exists_finished (hn : n ≠ 0) (h : Sound M enter todo s w)
    (hends : ∀ l, M.Ends l) (i : ι) :
    ∃ ts w', Reach (Turns M enter) w ts w' ∧ w'.v = 0#n ∧ w'.todo i = [] := by
  generalize hms : w.todo i = ms
  induction ms generalizing w with
  | nil =>
    obtain ⟨ts, w', hr, hv, htodo⟩ := h.exists_idle hends
    exact ⟨ts, w', hr, hv, by rw [htodo, hms]⟩
  | cons m ms ih =>
    -- whoever is inside comes out, then the task takes the lock for its next job
    obtain ⟨ts, w', hr, hv, htodo⟩ := h.exists_idle hends
    have h' : Sound M enter todo s w' := hr.invariant _ h fun _ _ _ hs ht => hs.turns hn ht
    rw [← htodo] at hms
    have hlock : Turns M enter _ _ _ := .lock (h'.nobody hv i) hms
    have hnext : (LockWorld.lock enter w' i m ms).todo i = ms := by
      rw [LockWorld.lock, if_neg (not_not.mpr hv)]
      exact Function.update_self ..
    obtain ⟨ts', w'', hr', hend⟩ := ih (h'.turns hn hlock) hnext
    exact ⟨ts ++ .lock i :: ts', w'', hr.append (.cons hlock hr'), hend⟩

end LockWorld

end DmfOs
