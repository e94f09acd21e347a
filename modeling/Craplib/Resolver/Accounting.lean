import Craplib.Resolver.Callbacks

/-!
# The accounts of the resolver pool

`working_workers`, `free_workers` and `waiting_addrs` together are the books of the pool:
which worker is lent to which request, and which requests wait for one.  They are moved
by `return_worker_with` and by `assign_work`, with callbacks in between.  A late result can
come from a worker that has been returned long ago and still points to its last request;
when that one has been destroyed, `onCall` compares the result with whatever stands in its
place, and may make a callback that nobody is waiting for.

`accounts_of_run` says that the books are in order all the same, in every run and whatever
such a comparison gives: a worker is entered once, and a live request that has not been
resolved is entered once.  What is counted is `places`, the entries of a request, and
`places_of_step` says what a step does to them.  No step of the loop thread is missing from
these runs (`loop_goesOn`): `assign_work` only reads from requests that are alive.
-/

namespace Craplib

namespace Resolver

open Machine

open scoped List

namespace State

variable {s t : State}

/-- The entries of a request: those in `waiting_addrs`, and the working workers that hold
it. -/
def places (s : State) (addr : Addr) : ℕ :=
  s.waitingAddrs.count addr + s.workingWorkers.countP (s.holds addr)

/-- **The books are in order.**  Every worker is in one of the two groups, once, and a live
request that has not been resolved either waits, once, or is held by one working worker. -/
structure InAccount (tr : List (State × Action)) (s : State) : Prop where
  workers : ∀ k, s.workingWorkers.count k + s.freeWorkers.count k = if k < s.workers then 1 else 0
  requests : ∀ addr i, s.objects.serial addr = some i → .resolved ∉ history i tr →
    (s.waitingAddrs.count addr = 1 ∧ ∀ k ∈ s.workingWorkers, (s.worker k).addr ≠ some addr) ∨
      (addr ∉ s.waitingAddrs ∧ ∃! k, k ∈ s.workingWorkers ∧ (s.worker k).addr = some addr)

/-! ## The groups of workers -/

theorem Partitioned.step {act : Action} (h : s.Partitioned) (hstep : s.step act = some t) :
    t.Partitioned := by
  cases act with
  | construct addr hs =>
      obtain ⟨objects, -, hassign⟩ := construct_cases hstep
      exact Partitioned.assignWork (s := { s with
        objects := objects, waitingAddrs := s.waitingAddrs ++ [addr] }) h hassign
  | destroy addr =>
      obtain ⟨i, -, ⟨-, rfl⟩ | ⟨-, rfl⟩⟩ := destroy_cases hstep
      · exact h
      · exact h.returnWorkerWith addr
  | take k =>
      obtain ⟨hs, rest, -, -, rfl⟩ := take_cases hstep
      exact h
  | publish k res =>
      obtain ⟨hs, -, -, rfl⟩ := publish_cases hstep
      exact h
  | deliver stale =>
      obtain ⟨k, queue, -, -, rfl | ⟨addr, -, -, rfl⟩⟩ := deliver_cases hstep
      · exact h
      · exact Partitioned.returnWorkerWith (s := { s with queue := queue }) h addr
  | ret =>
      obtain ⟨k, addr, u, -, hassign, rfl⟩ := ret_cases hstep
      have hassigned : u.Partitioned := h.assignWork hassign
      exact hassigned

/-! ## The entries of a request -/

theorem places_congr {c : Addr} (haddr : ∀ k, (t.worker k).addr = (s.worker k).addr)
    (hwaiting : t.waitingAddrs = s.waitingAddrs) (hworking : t.workingWorkers = s.workingWorkers) :
    t.places c = s.places c := by
  have hholds : t.holds c = s.holds c := by
    funext k
    unfold holds
    rw [haddr]
  unfold places
  rw [hwaiting, hworking, hholds]

/-- A worker that did not work is given a request. -/
theorem countP_holds_give {k : ℕ} {addr : Addr} {working : List ℕ} (hidle : k ∉ working)
    (haddr : ∀ k', (t.worker k').addr = if k' = k then some addr else (s.worker k').addr)
    (c : Addr) :
    (working ++ [k]).countP (t.holds c) =
      working.countP (s.holds c) + if addr = c then 1 else 0 := by
  have hothers : working.countP (t.holds c) = working.countP (s.holds c) := by
    refine List.countP_congr fun k' hk' => ?_
    have hne : k' ≠ k := by
      rintro rfl
      exact hidle hk'
    rw [holds_iff, holds_iff, haddr, if_neg hne]
  have hnew : t.holds c k = true ↔ addr = c := by
    rw [holds_iff, haddr, if_pos rfl, Option.some_inj]
  rw [List.countP_append, List.countP_singleton, hothers]
  simp only [hnew]

/-- A request that `assign_work` gives to a worker has left `waiting_addrs`. -/
theorem places_assignWork (h : s.Partitioned) (hstep : s.assignWork = some t) (c : Addr) :
    t.places c = s.places c := by
  obtain ⟨-, hworker, hwaiting, hworking⟩ := s.createWorkers_frame
  have hsame : s.createWorkers.places c = s.places c :=
    places_congr (fun k => by rw [hworker]) hwaiting hworking
  rw [← hsame]
  rcases assignWork_cases hstep with
    ⟨k, free, addr, waiting, i, hs, hfree, hhead, -, rfl⟩ | ⟨-, rfl⟩
  · have hidle : k ∉ s.createWorkers.workingWorkers :=
      h.createWorkers.not_working (hfree ▸ List.mem_append_right _ List.mem_cons_self)
    have hgiven : ∀ k', (Function.update s.createWorkers.worker k
        ((s.createWorkers.worker k).startWork addr hs) k').addr =
        if k' = k then some addr else (s.createWorkers.worker k').addr := by
      intro k'
      rw [Function.update_apply]
      split_ifs <;> rfl
    unfold places
    rw [countP_holds_give hidle hgiven, hhead, List.count_cons]
    simp only [beq_iff_eq]
    omega
  · rfl

/-- `return_worker_with` takes the request from the workers, and no other. -/
theorem places_returnWorkerWith (s : State) (addr c : Addr) :
    (s.returnWorkerWith addr).places c =
      if c = addr then s.waitingAddrs.count c else s.places c := by
  obtain ⟨working, returned, heq, hworking, -⟩ := s.returnWorkerWith_spec addr
  rw [heq]
  unfold places
  dsimp only
  change s.waitingAddrs.count c + working.countP (s.holds c) = _
  rw [hworking.countP_eq, List.countP_filter]
  split_ifs with hc
  · rw [List.countP_eq_zero.mpr, Nat.add_zero]
    intro k _
    rw [hc, Bool.and_not_self]
    exact Bool.false_ne_true
  · congr 1
    refine List.countP_congr fun k _ => ?_
    rw [Bool.and_eq_true, and_iff_left_of_imp]
    intro hc'
    rw [Bool.not_eq_true', ← Bool.not_eq_true, holds_iff]
    rw [holds_iff] at hc'
    rw [hc', Option.some_inj]
    exact hc

theorem places_construct {addr : Addr} {hs : HostService} (h : s.Partitioned)
    (hstep : s.construct addr hs = some t) (c : Addr) :
    t.places c = s.places c + if c = addr then 1 else 0 := by
  obtain ⟨objects, -, hassign⟩ := construct_cases hstep
  rw [places_assignWork (s := { s with
    objects := objects, waitingAddrs := s.waitingAddrs ++ [addr] }) h hassign c]
  unfold places
  dsimp only
  rw [List.count_append, List.count_singleton, Nat.add_right_comm]
  simp only [beq_iff_eq, eq_comm (a := addr)]
  rfl

/-- A request with one entry that is destroyed is left without. -/
theorem places_destroy {addr : Addr} (hone : s.places addr ≤ 1) (hstep : s.destroy addr = some t)
    (c : Addr) : t.places c = if c = addr then 0 else s.places c := by
  obtain ⟨i, -, ⟨hin, rfl⟩ | ⟨hnotin, rfl⟩⟩ := destroy_cases hstep
  · have hpos : 0 < s.waitingAddrs.count addr := List.count_pos_iff.mpr hin
    unfold places at hone ⊢
    dsimp only
    rw [List.count_erase]
    change _ + s.workingWorkers.countP (s.holds c) = _
    by_cases hc : c = addr
    · subst hc
      rw [if_pos (beq_self_eq_true c), if_pos rfl]
      omega
    · rw [if_neg (by simpa using Ne.symm hc), if_neg hc, Nat.sub_zero]
  · change (s.returnWorkerWith addr).places c = _
    rw [places_returnWorkerWith]
    by_cases hc : c = addr
    · rw [if_pos hc, if_pos hc, hc, List.count_eq_zero.mpr hnotin]
    · rw [if_neg hc, if_neg hc]

/-- What makes the entries of the requests count: no request has two of them, and what is
not alive has none. -/
structure Accounted (s : State) : Prop where
  partition : s.Partitioned
  once : ∀ addr, s.places addr ≤ 1
  gone : ∀ addr, s.objects.serial addr = none → s.places addr = 0

/-- **What a step does to the entries of a request.**  It is new and gets one; or it is
destroyed and left without; or it is resolved, and may lose its entry; or nothing happens
to it. -/
theorem places_of_step {act : Action} (h : s.Accounted) (hstep : s.step act = some t)
    (c : Addr) :
    (s.objects.serial c = none ∧ t.objects.serial c ≠ none ∧ t.places c = 1) ∨
      (t.objects.serial c = none ∧ t.places c = 0) ∨
      (t.objects.serial c = s.objects.serial c ∧ t.places c ≤ s.places c ∧
        ∃ i, s.objects.serial c = some i ∧ s.event act = some (i, .resolved)) ∨
      (t.objects.serial c = s.objects.serial c ∧ t.places c = s.places c) := by
  cases act with
  | construct addr hs =>
      obtain ⟨objects, hnew, hassign⟩ := construct_cases hstep
      have hobjects : t.objects = objects := objects_assignWork hassign
      rw [places_construct h.partition hstep, hobjects, Arena.serial_of_construct hnew]
      by_cases hc : c = addr
      · have hunused : s.objects.serial c = none :=
          hc ▸ Arena.serial_eq_none.mpr (Arena.free_of_construct hnew)
        rw [if_pos hc, if_pos hc, h.gone c hunused]
        exact .inl ⟨hunused, Option.some_ne_none _, rfl⟩
      · rw [if_neg hc, if_neg hc]
        exact .inr (.inr (.inr ⟨rfl, rfl⟩))
  | destroy addr =>
      rw [places_destroy (h.once addr) hstep, objects_destroy hstep, Arena.serial_destroy]
      by_cases hc : c = addr
      · rw [if_pos hc, if_pos hc]
        exact .inr (.inl ⟨rfl, rfl⟩)
      · rw [if_neg hc, if_neg hc]
        exact .inr (.inr (.inr ⟨rfl, rfl⟩))
  | take k =>
      obtain ⟨hs, rest, -, -, rfl⟩ := take_cases hstep
      exact .inr (.inr (.inr ⟨rfl, places_congr (addr_setWorker rfl) rfl rfl⟩))
  | publish k res =>
      obtain ⟨hs, -, -, rfl⟩ := publish_cases hstep
      exact .inr (.inr (.inr ⟨rfl, places_congr (addr_setWorker rfl) rfl rfl⟩))
  | deliver stale =>
      obtain ⟨k, queue, -, -, rfl | ⟨addr, -, -, rfl⟩⟩ := deliver_cases hstep
      · exact .inr (.inr (.inr ⟨rfl, places_congr (addr_setWorker rfl) rfl rfl⟩))
      · have hevent : ∀ i, s.objects.serial addr = some i →
            s.event (.deliver stale) = some (i, .resolved) := by
          intro i hserial
          unfold event calls
          rw [hstep]
          simp only [Option.map_some, Option.bind_some, hserial]
        have hplaces := places_returnWorkerWith { s with queue := queue } addr c
        have hobjects := (returnWorkerWith_frame { s with queue := queue } addr).2.1
        change _ ∨ _ ∨ (_ ∧ (returnWorkerWith { s with queue := queue } addr).places c ≤ _ ∧ _) ∨
          (_ ∧ (returnWorkerWith { s with queue := queue } addr).places c = _)
        rw [hplaces, hobjects]
        by_cases hc : c = addr
        · subst hc
          rw [if_pos rfl]
          cases hserial : s.objects.serial c with
          | some i =>
              exact .inr (.inr (.inl ⟨rfl, Nat.le_add_right _ _, i, rfl, hevent i hserial⟩))
          | none =>
              -- a free worker still points to it; it has no entry to lose
              have hgone := h.gone c hserial
              refine .inr (.inr (.inr ⟨rfl, ?_⟩))
              unfold places at hgone ⊢
              dsimp only
              omega
        · rw [if_neg hc]
          exact .inr (.inr (.inr ⟨rfl, rfl⟩))
  | ret =>
      obtain ⟨k, addr, u, -, hassign, rfl⟩ := ret_cases hstep
      have hobjects := objects_assignWork hassign
      have hreleased : (u.setWorker k { u.worker k with called := false }).places c = u.places c :=
        places_congr (addr_setWorker rfl) rfl rfl
      refine .inr (.inr (.inr ⟨congrArg (Arena.serial · c) hobjects, ?_⟩))
      exact hreleased.trans (places_assignWork h.partition hassign c)

theorem Accounted.init : State.init.Accounted where
  partition := List.Perm.refl _
  once := fun _ => Nat.zero_le _
  gone := fun _ _ => rfl

theorem Accounted.step {act : Action} (h : s.Accounted) (hstep : s.step act = some t) :
    t.Accounted where
  partition := h.partition.step hstep
  once := by
    intro c
    have hold := h.once c
    rcases places_of_step h hstep c with ⟨-, -, heq⟩ | ⟨-, heq⟩ | ⟨-, hle, -⟩ | ⟨-, heq⟩
    · exact heq.le
    · exact heq.le.trans (Nat.zero_le 1)
    · exact hle.trans hold
    · exact heq.le.trans hold
  gone := by
    intro c hgone
    rcases places_of_step h hstep c with ⟨-, hlive, -⟩ | ⟨-, heq⟩ | ⟨hsame, hle, -⟩ | ⟨hsame, heq⟩
    · exact absurd hgone hlive
    · exact heq
    · exact Nat.eq_zero_of_le_zero (hle.trans (h.gone c (hsame ▸ hgone)).le)
    · exact heq.trans (h.gone c (hsame ▸ hgone))

/-- `assign_work` goes through when the requests that wait are alive: it reads from the first
of them. -/
theorem assignWork_isSome (hlive : ∀ addr ∈ s.waitingAddrs, s.objects.object addr ≠ none) :
    s.assignWork.isSome := by
  obtain ⟨hobjects, -, hwaiting, -⟩ := s.createWorkers_frame
  unfold assignWork
  dsimp only
  split
  · next k addr waiting hlast hhead =>
      rw [hwaiting] at hhead
      obtain ⟨object, hobject⟩ := Option.ne_none_iff_exists'.mp
        (hlive addr (by rw [hhead]; exact List.mem_cons_self))
      rw [hobjects, hobject]
      rfl
  · rfl

theorem Accounted.waiting_alive (h : s.Accounted) :
    ∀ addr ∈ s.waitingAddrs, s.objects.object addr ≠ none := by
  intro addr hin hgone
  have hnone := h.gone addr (Arena.serial_eq_none.mpr hgone)
  have hcount : 0 < s.waitingAddrs.count addr := List.count_pos_iff.mpr hin
  unfold places at hnone
  omega

/-- A request that lives and has not been resolved has an entry. -/
theorem accounted_of_run {tr : List (State × Action)} (hrun : Runs .init tr s) :
    s.Accounted ∧ ∀ addr i, s.objects.serial addr = some i → .resolved ∉ history i tr →
      s.places addr = 1 := by
  induction hrun with
  | nil => exact ⟨Accounted.init, fun addr i hi => by cases hi⟩
  | @snoc tr s t act _ hstep ih =>
      obtain ⟨h, hplaces⟩ := ih
      refine ⟨h.step hstep, fun addr i hi hunresolved => ?_⟩
      unfold history at hunresolved
      rw [history_snoc, List.mem_append, not_or] at hunresolved
      rcases places_of_step h hstep addr with
        ⟨-, -, heq⟩ | ⟨hgone, -⟩ | ⟨hsame, -, j, hj, hevent⟩ | ⟨hsame, heq⟩
      · exact heq
      · rw [hgone] at hi
        cases hi
      · -- it has just been resolved
        obtain rfl : j = i := Option.some.inj (hj.symm.trans (hsame.symm.trans hi))
        refine absurd ?_ hunresolved.2
        rw [eventAbout_eq_some.mpr hevent]
        exact List.mem_singleton_self _
      · rw [heq]
        exact hplaces addr i (hsame ▸ hi) hunresolved.1

/-- **The loop thread goes on.**  In every state that a run reaches a message that waits can
be delivered, whatever the comparison gives when the request is gone, a callback can return,
a request can be made at a free address, and one that lives can be destroyed. -/
theorem loop_goesOn {tr : List (State × Action)} (hrun : Runs .init tr s) :
    (s.control = .idle → s.queue ≠ [] → ∀ stale, (s.step (.deliver stale)).isSome) ∧
      (s.control ≠ .idle → (s.step .ret).isSome) ∧
      (∀ addr hs, s.objects.serial addr = none → (s.step (.construct addr hs)).isSome) ∧
      ∀ addr, s.objects.serial addr ≠ none → (s.step (.destroy addr)).isSome := by
  have h := (accounted_of_run hrun).1.waiting_alive
  refine ⟨fun hidle hqueue stale => ?_, fun hcontrol => ?_, fun addr hs hfree => ?_,
    fun addr hlive => ?_⟩
  · obtain ⟨k, queue, heq⟩ := List.exists_cons_of_ne_nil hqueue
    simp only [step, deliver, hidle, heq, Option.isSome_some]
  · cases hresolving : s.control with
    | idle => exact absurd hresolving hcontrol
    | resolving k addr =>
        obtain ⟨u, hu⟩ := Option.isSome_iff_exists.mp (assignWork_isSome h)
        simp only [step, ret, hresolving, hu, Option.bind_eq_bind, Option.bind_some,
          Option.isSome_some]
  · obtain ⟨objects, hnew⟩ := Option.isSome_iff_exists.mp
      (Arena.construct_isSome hs (Arena.serial_eq_none.mp hfree))
    simp only [step, construct, hnew, Option.bind_eq_bind, Option.bind_some]
    refine assignWork_isSome fun c hin => ?_
    dsimp only at hin ⊢
    rw [Arena.object_of_construct hnew]
    split_ifs with hc
    · exact Option.some_ne_none _
    · rw [List.mem_append, List.mem_singleton] at hin
      exact h c (hin.resolve_right hc)
  · obtain ⟨i, hi⟩ := Option.ne_none_iff_exists'.mp hlive
    simp only [step, destroy, hi, Option.bind_eq_bind, Option.bind_some, Option.isSome_some]

/-- **The accounts of the pool.**  In every run the books are in order after every step,
callbacks under way included. -/
theorem accounts_of_run {tr : List (State × Action)} (hrun : Runs .init tr s) :
    InAccount tr s := by
  obtain ⟨h, hplaces⟩ := accounted_of_run hrun
  have hnodup : s.workingWorkers.Nodup :=
    (List.nodup_append.mp (h.partition.nodup_iff.mpr List.nodup_range)).1
  constructor
  · intro k
    rw [← List.count_append, h.partition.count_eq, List.count_range]
  · intro addr i hi hunresolved
    have hone := hplaces addr i hi hunresolved
    unfold places at hone
    rcases Nat.eq_zero_or_pos (s.waitingAddrs.count addr) with hzero | hpos
    · right
      rw [hzero, Nat.zero_add, List.countP_eq_length_filter, List.length_eq_one_iff] at hone
      obtain ⟨k, hk⟩ := hone
      have hheld : ∀ k', (k' ∈ s.workingWorkers ∧ (s.worker k').addr = some addr) ↔ k' = k := by
        intro k'
        rw [← List.mem_singleton (b := k), ← hk, List.mem_filter, holds_iff]
      exact ⟨List.count_eq_zero.mp hzero, k, (hheld k).mpr rfl, fun k' hk' => (hheld k').mp hk'⟩
    · left
      have hnone : s.workingWorkers.countP (s.holds addr) = 0 := by omega
      refine ⟨by omega, fun k hk haddr => ?_⟩
      exact List.countP_eq_zero.mp hnone k hk (s.holds_iff.mpr haddr)

/-- The result for a destroyed request comes late, from a worker that is free already, and
happens to match; in the callback the other request is destroyed, and a third is made: both
workers are free then, and one of them is given the third. -/
theorem accounts_of_run_example : ∃ tr s, Runs .init tr s ∧
    actions tr = [.construct 1 ⟨"a", "80"⟩, .construct 2 ⟨"b", "80"⟩, .take 1, .destroy 1,
      .publish 1 (some 7), .deliver true, .destroy 2, .construct 3 ⟨"c", "80"⟩, .ret] ∧
    s.workingWorkers = [0] ∧ s.freeWorkers = [1] ∧ InAccount tr s := by
  let acts : List Action := [.construct 1 ⟨"a", "80"⟩, .construct 2 ⟨"b", "80"⟩, .take 1,
    .destroy 1, .publish 1 (some 7), .deliver true, .destroy 2, .construct 3 ⟨"c", "80"⟩, .ret]
  let s := (exec State.step .init acts).get (by decide)
  have hs : exec State.step .init acts = some s := (Option.some_get _).symm
  obtain ⟨hrun, hacts⟩ := exec_trace _ _ _ _ hs
  exact ⟨_, s, hrun, hacts, by decide, by decide, accounts_of_run hrun⟩

end State

end Resolver

end Craplib
