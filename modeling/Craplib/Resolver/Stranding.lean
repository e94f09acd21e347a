import Craplib.Resolver.Steps

/-!
# Requests that wait while a worker is free

A worker becomes free in `on_resolved` and in `cancel_resolve`, and `assign_work` gives one
free worker one waiting request.  `on_resolved` ends with one call of it, and
`start_resolve` with another; `cancel_resolve` returns the worker of a request that was
being looked up and leaves it at that.

`none_stranded_iff` says when this is enough: nobody waits beside a free worker, whenever
control is in the run loop, exactly when no running request is destroyed from there while
another waits, and `on_resolved` never returns to two free workers and two requests that
wait.
-/

namespace Craplib

namespace Resolver

open Machine

open scoped List

namespace State

variable {s t : State}

/-- No request waits beside a free worker. -/
def Served (s : State) : Prop := s.freeWorkers = [] ∨ s.waitingAddrs = []

/-- When no operation of the pool is in progress, no request waits beside a free worker. -/
def NoneStranded (s : State) : Prop := s.control = .idle → s.Served

/-- The calls of `assign_work` that the action makes are enough: `~AsyncAddrInfo` makes
none, the end of `on_resolved` one. -/
def Relieves (s : State) : Action → Prop
  | .destroy addr => s.control = .idle →
      s.waitingAddrs = [] ∨ addr ∈ s.waitingAddrs ∨
        ∀ k ∈ s.workingWorkers, (s.worker k).addr ≠ some addr
  | .ret => s.freeWorkers.length ≤ 1 ∨ s.waitingAddrs.length ≤ 1
  | _ => True

/-! ## One call of `assign_work` -/

theorem Partitioned.length (h : s.Partitioned) :
    s.workingWorkers.length + s.freeWorkers.length = s.workers := by
  rw [← List.length_append, h.length_eq, List.length_range]

theorem createWorkers_of_ne (h : s.Partitioned) (hworkers : s.workers ≠ 0) :
    s.createWorkers = s := by
  unfold createWorkers
  rw [if_neg (h.length ▸ hworkers)]

theorem workers_createWorkers (h : s.Partitioned) : s.createWorkers.workers ≠ 0 := by
  unfold createWorkers
  split
  · exact Nat.succ_ne_zero _
  · next hsome => exact h.length ▸ hsome

theorem workers_assignWork (h : s.Partitioned) (hstep : s.assignWork = some t) :
    t.workers ≠ 0 := by
  rcases assignWork_cases hstep with ⟨k, free, addr, waiting, i, hs, -, -, -, rfl⟩ | ⟨-, rfl⟩
  · exact workers_createWorkers h
  · exact workers_createWorkers h

/-- `assign_work` leaves nobody waiting beside a free worker exactly when there was at
most one to wait or at most one to be free. -/
theorem served_assignWork (hstep : s.assignWork = some t) :
    t.Served ↔ s.createWorkers.freeWorkers.length ≤ 1 ∨ s.waitingAddrs.length ≤ 1 := by
  have hwaiting := s.createWorkers_frame.2.2.1
  unfold Served
  rcases assignWork_cases hstep with
    ⟨k, free, addr, waiting, i, hs, hfree, hhead, -, rfl⟩ | ⟨hnone, rfl⟩
  · rw [hfree, ← hwaiting, hhead, List.length_append, List.length_singleton, List.length_cons,
      ← List.length_eq_zero_iff, ← List.length_eq_zero_iff]
    dsimp only
    omega
  · rw [← hwaiting]
    refine iff_of_true hnone (hnone.imp ?_ ?_)
    · intro hfree
      rw [hfree]
      exact Nat.zero_le 1
    · intro hempty
      rw [hempty]
      exact Nat.zero_le 1

/-! ## Whole runs -/

/-- What holds as long as `assign_work` has been called often enough. -/
structure Attended (s : State) : Prop where
  partition : s.Partitioned
  /-- The first request brings the workers. -/
  staffed : s.workers = 0 → s.waitingAddrs = []
  none_stranded : s.NoneStranded

theorem Attended.init : State.init.Attended where
  partition := List.Perm.refl _
  staffed := fun _ => rfl
  none_stranded := fun _ => .inl rfl

theorem Attended.construct {addr : Addr} {hs : HostService} (h : s.Attended)
    (hstep : s.construct addr hs = some t) : t.Attended := by
  obtain ⟨objects, -, hassign⟩ := construct_cases hstep
  have hpart : Partitioned { s with
      objects := objects, waitingAddrs := s.waitingAddrs ++ [addr] } := h.partition
  refine ⟨hpart.assignWork hassign, fun hnone => absurd hnone (workers_assignWork hpart hassign),
    fun hidle => (served_assignWork hassign).mpr ?_⟩
  have hcontrol : s.control = .idle := (control_assignWork hassign).symm.trans hidle
  dsimp only
  rw [List.length_append, List.length_singleton]
  by_cases hworkers : s.workers = 0
  · rw [h.staffed hworkers]
    exact .inr (Nat.le_refl 1)
  · rw [createWorkers_of_ne hpart hworkers]
    rcases h.none_stranded hcontrol with hfree | hwaiting
    · left
      dsimp only
      rw [hfree]
      exact Nat.zero_le 1
    · right
      rw [hwaiting]
      exact Nat.le_refl 1

/-- A request that is destroyed leaves its worker free, and does not look who waits. -/
theorem Attended.destroy {addr : Addr} (h : s.Attended) (hgood : s.Relieves (.destroy addr))
    (hstep : s.destroy addr = some t) : t.Attended := by
  obtain ⟨i, -, ⟨hin, rfl⟩ | ⟨hnotin, rfl⟩⟩ := destroy_cases hstep
  · exact {
      partition := h.partition
      staffed := by
        intro hnone
        dsimp only
        rw [h.staffed hnone]
        rfl
      none_stranded := by
        intro hidle
        refine (h.none_stranded hidle).imp id fun hempty => ?_
        rw [hempty] at hin
        cases hin }
  · have hpart := h.partition.returnWorkerWith addr
    obtain ⟨working, returned, heq, -, hreturned⟩ := s.returnWorkerWith_spec addr
    rw [heq] at hpart ⊢
    refine ⟨hpart, h.staffed, fun hidle => ?_⟩
    rcases hgood hidle with hempty | hin | hnone
    · exact .inr hempty
    · exact absurd hin hnotin
    · -- no worker is returned
      rw [List.filter_eq_nil_iff.mpr fun k hk => mt holds_iff.mp (hnone k hk),
        List.perm_nil] at hreturned
      refine (h.none_stranded hidle).imp (fun hfree => ?_) id
      dsimp only
      rw [hfree, hreturned, List.append_nil]

theorem Attended.ret (h : s.Attended) (hgood : s.Relieves .ret) (hstep : s.ret = some t) :
    t.Attended := by
  obtain ⟨k, addr, u, -, hassign, rfl⟩ := ret_cases hstep
  have hworkers := workers_assignWork h.partition hassign
  have hpart : u.Partitioned := h.partition.assignWork hassign
  refine ⟨hpart, fun hnone => absurd hnone hworkers, fun _ => ?_⟩
  refine (served_assignWork hassign).mpr ?_
  by_cases hnone : s.workers = 0
  · rw [h.staffed hnone]
    exact .inr (Nat.zero_le 1)
  · rw [createWorkers_of_ne h.partition hnone]
    exact hgood

theorem Attended.step {act : Action} (h : s.Attended) (hstep : s.step act = some t)
    (hgood : s.Relieves act) : t.Attended := by
  cases act with
  | construct addr hs => exact h.construct hstep
  | destroy addr => exact h.destroy hgood hstep
  | take k =>
      obtain ⟨hs, rest, -, -, rfl⟩ := take_cases hstep
      exact ⟨h.partition, h.staffed, h.none_stranded⟩
  | publish k res =>
      obtain ⟨hs, -, -, rfl⟩ := publish_cases hstep
      exact ⟨h.partition, h.staffed, h.none_stranded⟩
  | deliver stale =>
      obtain ⟨k, queue, -, -, rfl | ⟨addr, -, -, rfl⟩⟩ := deliver_cases hstep
      · exact ⟨h.partition, h.staffed, h.none_stranded⟩
      · have hpart : (returnWorkerWith { s with queue := queue } addr).Partitioned :=
          Partitioned.returnWorkerWith (s := { s with queue := queue }) h.partition addr
        obtain ⟨working, returned, heq, -, -⟩ :=
          returnWorkerWith_spec { s with queue := queue } addr
        rw [heq] at hpart ⊢
        exact ⟨hpart, h.staffed, fun hidle => nomatch hidle⟩
  | ret => exact h.ret hgood hstep

/-- Where a call of `assign_work` is missing, a request waits beside a free worker. -/
theorem stranded_of_step {act : Action} (hstep : s.step act = some t) (hbad : ¬ s.Relieves act) :
    ¬ t.NoneStranded := by
  cases act with
  | destroy addr =>
      unfold Relieves at hbad
      push Not at hbad
      obtain ⟨hidle, hwaiting, hnotin, k, hk, hheld⟩ := hbad
      obtain ⟨i, -, ⟨hin, -⟩ | ⟨-, rfl⟩⟩ := destroy_cases hstep
      · exact absurd hin hnotin
      · obtain ⟨working, returned, heq, -, hreturned⟩ := s.returnWorkerWith_spec addr
        rw [heq]
        intro hnone
        rcases hnone hidle with hfree | hempty
        · have hin : k ∈ returned :=
            hreturned.mem_iff.mpr (List.mem_filter.mpr ⟨hk, holds_iff.mpr hheld⟩)
          rw [(List.append_eq_nil_iff.mp hfree).2] at hin
          cases hin
        · exact hwaiting hempty
  | ret =>
      obtain ⟨k, addr, u, -, hassign, rfl⟩ := ret_cases hstep
      intro hnone
      refine hbad ?_
      have hsize := (served_assignWork hassign).mp (hnone rfl)
      unfold createWorkers at hsize
      split at hsize
      · next hempty => exact .inl (by omega)
      · exact hsize
  | construct addr hs => exact absurd trivial hbad
  | take k => exact absurd trivial hbad
  | publish k res => exact absurd trivial hbad
  | deliver stale => exact absurd trivial hbad

/-- **When nobody is stranded.**  In a run of the pool no request waits beside a free worker
whenever control is in the run loop, exactly when no request that a working worker holds is
destroyed from there while another waits, and every `on_resolved` returns to at most one
free worker or at most one request that waits. -/
theorem none_stranded_iff {tr : List (State × Action)} (hrun : Runs .init tr s) :
    (∀ x ∈ visited tr s, x.NoneStranded) ↔ ∀ p ∈ tr, p.1.Relieves p.2 :=
  hrun.visited_iff_good (I := Attended) (fun _ _ _ h hstep hgood => h.step hstep hgood)
    (fun _ _ _ _ hstep hbad => stranded_of_step hstep hbad) (fun _ h => h.none_stranded)
    Attended.init

/-- In the callback of one request the other running one is destroyed, while two wait: both
workers are free when it returns, and one of the two requests gets one. -/
theorem none_stranded_iff_example : ∃ tr s, Runs .init tr s ∧
    actions tr = [.construct 1 ⟨"a", "80"⟩, .construct 2 ⟨"b", "80"⟩, .construct 3 ⟨"c", "80"⟩,
      .construct 4 ⟨"d", "80"⟩, .take 1, .publish 1 (some 7), .deliver, .destroy 2, .ret] ∧
    ((∀ x ∈ visited tr s, x.NoneStranded) ↔ ∀ p ∈ tr, p.1.Relieves p.2) := by
  let acts : List Action := [.construct 1 ⟨"a", "80"⟩, .construct 2 ⟨"b", "80"⟩,
    .construct 3 ⟨"c", "80"⟩, .construct 4 ⟨"d", "80"⟩, .take 1, .publish 1 (some 7), .deliver,
    .destroy 2, .ret]
  let s := (exec State.step .init acts).get (by decide)
  have hs : exec State.step .init acts = some s := (Option.some_get _).symm
  obtain ⟨hrun, hacts⟩ := exec_trace _ _ _ _ hs
  exact ⟨_, s, hrun, hacts, none_stranded_iff hrun⟩

/-- Two requests run and one waits; one of the two is destroyed: its worker is free, and
the third request waits on. -/
theorem stranded_behind_cancelled : ∃ tr s, Runs .init tr s ∧
    actions tr = [.construct 1 ⟨"a", "80"⟩, .construct 2 ⟨"b", "80"⟩,
      .construct 3 ⟨"c", "80"⟩, .destroy 1] ∧
    s.control = .idle ∧ s.freeWorkers = [1] ∧ s.waitingAddrs = [3] ∧ ¬ s.NoneStranded := by
  let acts : List Action := [.construct 1 ⟨"a", "80"⟩, .construct 2 ⟨"b", "80"⟩,
    .construct 3 ⟨"c", "80"⟩, .destroy 1]
  let s := (exec State.step .init acts).get (by decide)
  have hs : exec State.step .init acts = some s := (Option.some_get _).symm
  obtain ⟨hrun, hacts⟩ := exec_trace _ _ _ _ hs
  have hfree : s.freeWorkers = [1] := by decide
  have hwaiting : s.waitingAddrs = [3] := by decide
  refine ⟨_, s, hrun, hacts, by decide, hfree, hwaiting, fun hnone => ?_⟩
  have hserved := hnone (by decide)
  rw [Served, hfree, hwaiting] at hserved
  simp at hserved

end State

end Resolver

end Craplib
