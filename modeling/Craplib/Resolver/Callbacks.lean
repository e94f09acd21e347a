import Craplib.Lib.Histories
import Craplib.Resolver.Invariant

/-!
# When resolver callbacks stop

`Worker::cancel_work` is meant to make its worker forget the request: the comment in
`onCall` counts on it to "set addr to 0".  But it assigns the parameter, so a worker that
has gone back to the free ones still points to its last request, alive or destroyed.

`stops_iff_unheld` says exactly when the promise is kept all the same: when every request
is destroyed while no worker points to it, because it still waits for a worker, or because
the worker it had has been given another request.

* One way, a destructor that runs while a worker points to the object leaves that pointer
  behind (`held_after_destroy`).
* The other way, the steps that meet the condition keep the invariant `State.Tidy`: a free
  worker has no lookup under way, so a result reaches a working worker only, and that one
  holds a request that is alive and has not been resolved (`event_resolved`).
-/

namespace Craplib

namespace Resolver

open Machine

open scoped List

/-! ## What happens to a request -/

/-- What happens to an `AsyncAddrInfo`. -/
inductive Event
  | resolved
  | destroyed
deriving DecidableEq

namespace State

variable {s t : State}

/-- The call of `on_resolved` that an action makes: through which pointer, and with which
result. -/
def calls (s : State) (act : Action) : Option (Addr × Option AddrInfoPtr) :=
  match act, (s.step act).map State.control with
  | .deliver _, some (.resolving k addr) => some (addr, (s.worker k).res)
  | _, _ => none

/-- What an action does to which request. -/
def event (s : State) (act : Action) : Option (ℕ × Event) :=
  match act with
  | .destroy addr => (s.objects.serial addr).map (·, .destroyed)
  | _ => (s.calls act).bind fun c => (s.objects.serial c.1).map (·, .resolved)

/-- What has happened to the request `i` in a trace. -/
abbrev history (i : ℕ) (tr : List (State × Action)) : List Event :=
  Machine.history State.event i tr

/-- **Callbacks stop at destruction.**  In the run with this trace and last state every
request gets `on_resolved` at most once, and never after its destructor, and no worker
ever points to where no request lives. -/
structure StopsAtDestruction (tr : List (State × Action)) (s : State) : Prop where
  once : ∀ i, (history i tr).count .resolved ≤ 1
  not_after : ∀ i before after, history i tr = before ++ .destroyed :: after →
    .resolved ∉ after
  forgotten : ∀ x ∈ visited tr s, ∀ k addr, (x.worker k).addr = some addr →
    x.objects.serial addr ≠ none

/-! ## Requests that may still be resolved -/

/-- The request `i` waits, or a working worker holds it. -/
def Pending (s : State) (i : ℕ) : Prop :=
  (∃ addr ∈ s.waitingAddrs, s.objects.serial addr = some i) ∨
    ∃ k ∈ s.workingWorkers, ∃ addr, (s.worker k).addr = some addr ∧
      s.objects.serial addr = some i

theorem Pending.alive {i : ℕ} (h : s.Pending i) : ∃ addr, s.objects.serial addr = some i := by
  rcases h with ⟨addr, -, hserial⟩ | ⟨-, -, addr, -, hserial⟩
  · exact ⟨addr, hserial⟩
  · exact ⟨addr, hserial⟩

theorem Pending.of_assignWork {i : ℕ} (hstep : s.assignWork = some t) (h : t.Pending i) :
    s.Pending i := by
  obtain ⟨hobjects, hworker, hwaiting, hworking⟩ := s.createWorkers_frame
  have hback : s.createWorkers.Pending i → s.Pending i := by
    unfold Pending
    rw [hobjects, hworker, hwaiting, hworking]
    exact id
  rcases assignWork_cases hstep with
    ⟨k, free, addr, waiting, j, hs, hfree, hhead, hobject, rfl⟩ | ⟨-, rfl⟩
  · apply hback
    rcases h with ⟨addr', hin, hserial⟩ | ⟨k', hin, addr', haddr, hserial⟩
    · exact .inl ⟨addr', hhead ▸ List.mem_cons_of_mem _ hin, hserial⟩
    · dsimp only at hin haddr
      by_cases hk : k' = k
      · -- it has just been given the first waiting request
        rw [hk, Function.update_self] at haddr
        obtain rfl : addr = addr' := Option.some.inj haddr
        exact .inl ⟨addr, hhead ▸ List.mem_cons_self, hserial⟩
      · rw [Function.update_of_ne hk] at haddr
        rw [List.mem_append, List.mem_singleton] at hin
        exact .inr ⟨k', hin.resolve_right hk, addr', haddr, hserial⟩
  · exact hback h

/-- A change that gives no worker a new request. -/
theorem Pending.of_frame {i : ℕ} (h : t.Pending i)
    (haddr : ∀ k, (t.worker k).addr = (s.worker k).addr)
    (hserial : ∀ addr, t.objects.serial addr = some i → s.objects.serial addr = some i)
    (hwaiting : ∀ addr ∈ t.waitingAddrs, addr ∈ s.waitingAddrs)
    (hworking : ∀ k ∈ t.workingWorkers, k ∈ s.workingWorkers) : s.Pending i := by
  rcases h with ⟨addr, hin, hi⟩ | ⟨k, hin, addr, hk, hi⟩
  · exact .inl ⟨addr, hwaiting addr hin, hserial addr hi⟩
  · rw [haddr] at hk
    exact .inr ⟨k, hworking k hin, addr, hk, hserial addr hi⟩

/-- A request is pending because it was, or because it is new. -/
theorem pending_of_step {act : Action} {i : ℕ} (hstep : s.step act = some t)
    (h : t.Pending i) : s.Pending i ∨ i = s.objects.born := by
  cases act with
  | construct addr hs =>
      obtain ⟨objects, hnew, hassign⟩ := construct_cases hstep
      have hback := h.of_assignWork hassign
      have hserial := fun c => Arena.serial_of_construct hnew c
      by_cases hi : i = s.objects.born
      · exact .inr hi
      · have hold : ∀ c, objects.serial c = some i → s.objects.serial c = some i ∧ c ≠ addr := by
          intro c hc
          rw [hserial] at hc
          split_ifs at hc with hca
          · exact absurd (Option.some.inj hc).symm hi
          · exact ⟨hc, hca⟩
        left
        rcases hback with ⟨c, hin, hc⟩ | ⟨k, hin, c, hk, hc⟩
        · obtain ⟨hc, hne⟩ := hold c hc
          rw [List.mem_append, List.mem_singleton] at hin
          exact .inl ⟨c, hin.resolve_right hne, hc⟩
        · exact .inr ⟨k, hin, c, hk, (hold c hc).1⟩
  | destroy addr =>
      have hserial : ∀ c, (s.objects.destroy addr).serial c = some i →
          s.objects.serial c = some i := by
        intro c hc
        rw [Arena.serial_destroy] at hc
        split_ifs at hc
        exact hc
      obtain ⟨j, -, ⟨-, rfl⟩ | ⟨-, rfl⟩⟩ := destroy_cases hstep
      · exact .inl (h.of_frame (fun _ => rfl) hserial (fun _ => List.mem_of_mem_erase)
          fun _ => id)
      · obtain ⟨hworker, hobjects, hwaiting, hworking⟩ := s.returnWorkerWith_frame addr
        rw [hobjects] at h
        refine .inl (h.of_frame (fun k => by rw [hworker]) hserial (fun c hc => ?_)
          fun k hk => (hworking k hk).1)
        rw [← hwaiting]
        exact hc
  | take k =>
      obtain ⟨hs, rest, -, -, rfl⟩ := take_cases hstep
      exact .inl (h.of_frame (addr_setWorker rfl) (fun _ => id) (fun _ => id) fun _ => id)
  | publish k res =>
      obtain ⟨hs, -, -, rfl⟩ := publish_cases hstep
      exact .inl (h.of_frame (addr_setWorker rfl) (fun _ => id) (fun _ => id) fun _ => id)
  | deliver stale =>
      obtain ⟨k, queue, -, -, rfl | ⟨addr, -, -, rfl⟩⟩ := deliver_cases hstep
      · exact .inl (h.of_frame (addr_setWorker rfl) (fun _ => id) (fun _ => id) fun _ => id)
      · obtain ⟨hworker, hobjects, hwaiting, hworking⟩ :=
          returnWorkerWith_frame { s with queue := queue } addr
        refine .inl (h.of_frame (fun k => by rw [hworker]) (fun c hc => ?_) (fun c hc => ?_)
          fun k hk => (hworking k hk).1)
        · rw [hobjects] at hc
          exact hc
        · rw [hwaiting] at hc
          exact hc
  | ret =>
      obtain ⟨k, addr, u, -, hassign, rfl⟩ := ret_cases hstep
      exact .inl (Pending.of_assignWork hassign
        (h.of_frame (addr_setWorker rfl) (fun _ => id) (fun _ => id) fun _ => id))

/-! ## The callbacks -/

/-- The request `i` has been constructed, and neither waits nor is held any more. -/
structure Settled (s : State) (i : ℕ) : Prop where
  born : i < s.objects.born
  done : ¬ s.Pending i

theorem Settled.step {act : Action} {i : ℕ} (h : s.Settled i) (hstep : s.step act = some t) :
    t.Settled i := by
  refine ⟨Nat.lt_of_lt_of_le h.born (serial_of_step hstep).1, fun hpending => ?_⟩
  rcases pending_of_step hstep hpending with hold | hnew
  · exact h.done hold
  · exact absurd hnew (Nat.ne_of_lt h.born)

/-- A result that is delivered is that of a working worker, and settles the request the
worker holds. -/
theorem event_resolved (h : s.Tidy) {act : Action} {i : ℕ} (hstep : s.step act = some t)
    (hevent : s.event act = some (i, .resolved)) : s.Pending i ∧ t.Settled i := by
  have hcalls : ∃ addr res, s.calls act = some (addr, res) ∧ s.objects.serial addr = some i := by
    cases act with
    | destroy addr =>
        obtain ⟨j, -, hj⟩ := Option.map_eq_some_iff.mp hevent
        cases hj
    | _ =>
        simp only [event] at hevent
        obtain ⟨c, hc, hevent⟩ := Option.bind_eq_some_iff.mp hevent
        obtain ⟨j, hj, hji⟩ := Option.map_eq_some_iff.mp hevent
        cases hji
        exact ⟨c.1, c.2, hc, hj⟩
  obtain ⟨addr, res, hcall, hserial⟩ := hcalls
  unfold calls at hcall
  rw [hstep] at hcall
  cases act with
  | deliver stale =>
      obtain ⟨k, queue, hidle, hqueue, rfl | ⟨addr', haddr, -, rfl⟩⟩ := deliver_cases hstep
      · simp only [Option.map_some, setWorker, hidle] at hcall
        cases hcall
      · cases hcall
        obtain ⟨-, -, hworks⟩ := h.pop hqueue
        obtain ⟨hworker, hobjects, hwaiting, hworking⟩ :=
          returnWorkerWith_frame { s with queue := queue } addr
        refine ⟨.inr ⟨k, hworks, addr, haddr, hserial⟩, ?_, ?_⟩
        · dsimp only
          rw [hobjects]
          exact Arena.serial_lt_born hserial
        rintro (⟨c, hin, hc⟩ | ⟨k', hin, c, hk', hc⟩)
        · -- a request that a worker holds does not wait
          dsimp only at hin hc
          rw [hwaiting] at hin
          rw [hobjects] at hc
          obtain rfl := Arena.serial_injective hserial hc
          exact (h.waiting addr hin).2 k haddr
        · -- and no working worker holds it after `return_worker_with`
          dsimp only at hk' hc
          rw [hobjects] at hc
          obtain rfl := Arena.serial_injective hserial hc
          rw [hworker] at hk'
          exact (hworking k' hin).2 hk'
  | construct addr hs => cases hcall
  | destroy addr => cases hcall
  | take k => cases hcall
  | publish k res => cases hcall
  | ret => cases hcall

/-- A request that is destroyed is settled. -/
theorem event_destroyed {act : Action} {i : ℕ} (hstep : s.step act = some t)
    (hevent : s.event act = some (i, .destroyed)) : t.Settled i := by
  cases act with
  | destroy addr =>
      obtain ⟨j, hj, hji⟩ := Option.map_eq_some_iff.mp hevent
      cases hji
      have hgone := objects_destroy hstep
      refine ⟨by rw [hgone, Arena.born_destroy]; exact Arena.serial_lt_born hj, fun hpending => ?_⟩
      obtain ⟨c, hc⟩ := hpending.alive
      rw [hgone, Arena.serial_destroy] at hc
      split_ifs at hc with hne
      exact hne (Arena.serial_injective hc hj)
  | _ =>
      simp only [event] at hevent
      obtain ⟨c, -, hevent⟩ := Option.bind_eq_some_iff.mp hevent
      obtain ⟨j, -, hji⟩ := Option.map_eq_some_iff.mp hevent
      cases hji

/-- As long as no request is destroyed while a worker points to it, `on_resolved` comes
first in every history or not at all. -/
theorem history_of_unheld {tr : List (State × Action)} (hrun : Runs .init tr s)
    (hunheld : ∀ p ∈ tr, p.1.Unheld p.2) :
    s.Tidy ∧ ∀ i, (∀ e, Closes e (· = .resolved) (history i tr)) ∧
      (history i tr ≠ [] → s.Settled i) := by
  induction hrun with
  | nil => exact ⟨Tidy.init, fun i => ⟨fun e => Closes.nil, fun hne => absurd rfl hne⟩⟩
  | @snoc tr s t act hrun hstep ih =>
      rw [List.forall_mem_append] at hunheld
      obtain ⟨htidy, hih⟩ := ih hunheld.1
      refine ⟨htidy.step (hunheld.2 (s, act) (by simp)) hstep, fun i => ?_⟩
      obtain ⟨hcloses, hsettled⟩ := hih i
      unfold history
      rw [history_snoc]
      constructor
      · intro e
        apply (hcloses e).snoc_toList
        rintro _ hnow rfl
        have hpending := (event_resolved htidy hstep (eventAbout_eq_some.mp hnow)).1
        have hempty : history i tr = [] := by
          by_contra hne
          exact (hsettled hne).done hpending
        change e ∉ history i tr
        rw [hempty]
        exact List.not_mem_nil
      · intro hne
        by_cases hold : history i tr = []
        · change history i tr ++ _ ≠ [] at hne
          rw [hold, List.nil_append] at hne
          cases hnow : eventAbout event i s act with
          | none =>
              rw [hnow] at hne
              exact absurd rfl hne
          | some e =>
              rw [eventAbout_eq_some] at hnow
              cases e with
              | resolved => exact (event_resolved htidy hstep hnow).2
              | destroyed => exact event_destroyed hstep hnow
        · exact (hsettled hold).step hstep

/-! ## The condition is exact -/

/-- A destructor leaves the pointers of the workers to the object where they are. -/
theorem held_after_destroy {addr : Addr} {k : ℕ} (hk : (s.worker k).addr = some addr)
    (hstep : s.destroy addr = some t) :
    (t.worker k).addr = some addr ∧ t.objects.serial addr = none := by
  have hgone := objects_destroy hstep
  constructor
  · obtain ⟨j, -, ⟨-, rfl⟩ | ⟨-, rfl⟩⟩ := destroy_cases hstep
    · exact hk
    · dsimp only
      rw [(s.returnWorkerWith_frame addr).1]
      exact hk
  · rw [hgone, Arena.serial_destroy, if_pos rfl]

/-- **When callbacks stop at destruction.**  In a run of the pool they do exactly when
every request that is destroyed is one that no worker points to at that moment: it still
waits, or the worker that had it has been given another. -/
theorem stops_iff_unheld {tr : List (State × Action)} (hrun : Runs .init tr s) :
    StopsAtDestruction tr s ↔ ∀ p ∈ tr, p.1.Unheld p.2 := by
  constructor
  · rintro hstops ⟨x, act⟩ hp addr rfl k hk
    obtain ⟨pre, post, t, rfl, -, hstep, hpost⟩ := hrun.of_mem hp
    obtain ⟨hheld, hgone⟩ := held_after_destroy hk hstep
    refine hstops.forgotten t ?_ k addr hheld hgone
    have hvisited := hpost.start_mem_visited
    simp only [visited, List.map_append, List.map_cons, List.mem_append, List.mem_cons]
    rw [visited, List.mem_append] at hvisited
    rcases hvisited with hvisited | hvisited
    · exact .inl (.inr (.inr hvisited))
    · exact .inr (by simpa using hvisited)
  · intro hunheld
    obtain ⟨-, hhistory⟩ := history_of_unheld hrun hunheld
    refine ⟨fun i => ((hhistory i).1 .resolved).count_le_one rfl,
      fun i before after hsplit hin => ((hhistory i).1 .destroyed).after_last hsplit _ hin rfl,
      fun x hx => ?_⟩
    obtain ⟨pre, ⟨rest, rfl⟩, hpre⟩ := hrun.of_mem_visited hx
    rw [List.forall_mem_append] at hunheld
    exact (history_of_unheld hpre hunheld.1).1.alive

/-- A request that is destroyed in the callback of its result, after its worker has been
given the next one. -/
theorem stops_iff_unheld_example : ∃ tr s, Runs .init tr s ∧
    actions tr = [.construct 1 ⟨"a", "80"⟩, .take 1, .publish 1 (some 7), .deliver,
      .construct 2 ⟨"b", "80"⟩, .destroy 1, .ret] ∧
    (StopsAtDestruction tr s ↔ ∀ p ∈ tr, p.1.Unheld p.2) := by
  have hexec : (exec State.step .init [.construct 1 ⟨"a", "80"⟩, .take 1,
      .publish 1 (some 7), .deliver, .construct 2 ⟨"b", "80"⟩, .destroy 1,
      .ret]).isSome = true := by decide
  obtain ⟨s, hs⟩ := Option.isSome_iff_exists.mp hexec
  obtain ⟨tr, hrun, hacts⟩ := exec_run _ _ _ _ hs
  exact ⟨tr, s, hrun, hacts, stops_iff_unheld hrun⟩

/-- A request is destroyed while its lookup is under way, and its worker is given the next
one, for the same host and service: both results match, and the second request gets
`on_resolved` twice. -/
theorem resolved_twice : ∃ s,
    exec State.step .init [.construct 1 ⟨"a", "80"⟩, .take 1, .destroy 1,
      .construct 2 ⟨"a", "80"⟩, .publish 1 (some 7), .deliver, .ret, .take 1,
      .publish 1 (some 8), .deliver, .ret] = some s ∧
    history 1 (trace State.step .init [.construct 1 ⟨"a", "80"⟩, .take 1, .destroy 1,
      .construct 2 ⟨"a", "80"⟩, .publish 1 (some 7), .deliver, .ret, .take 1,
      .publish 1 (some 8), .deliver, .ret]) = [.resolved, .resolved] ∧
    ¬ StopsAtDestruction (trace State.step .init [.construct 1 ⟨"a", "80"⟩, .take 1,
      .destroy 1, .construct 2 ⟨"a", "80"⟩, .publish 1 (some 7), .deliver, .ret, .take 1,
      .publish 1 (some 8), .deliver, .ret]) s := by
  let acts : List Action := [.construct 1 ⟨"a", "80"⟩, .take 1, .destroy 1,
    .construct 2 ⟨"a", "80"⟩, .publish 1 (some 7), .deliver, .ret, .take 1,
    .publish 1 (some 8), .deliver, .ret]
  have hhistory : history 1 (trace State.step .init acts) = [.resolved, .resolved] := by decide
  refine ⟨(exec State.step .init acts).get (by decide), (Option.some_get _).symm, hhistory,
    fun hstops => ?_⟩
  have honce := hstops.once 1
  rw [hhistory] at honce
  exact absurd honce (by decide)

end State

end Resolver

end Craplib
