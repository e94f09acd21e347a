import Craplib.Resolver.Callbacks

/-!
# Results go to the request they were looked up for

A worker can be given another request while the lookup for the last one is under way, and
a result published for the one can wait in the run loop while the worker holds the other.
`res` and `res_work` are changed together, by the worker's thread and with its message
locked, and `onCall` compares `res_work` with the request the worker points to then.

`resolved_own_lookup` says that this is enough: along any run, what a callback on a live
request passes on is what the last lookup of its worker returned, and that lookup was made
for the host and the service of this request.
-/

namespace Craplib

namespace Resolver

open Machine

namespace State

variable {s t : State}

/-- The lookup whose result an action publishes: by which worker, for what, and what
`getaddrinfo` returned. -/
def lookup (s : State) : Action → Option (ℕ × HostService × Option AddrInfoPtr)
  | .publish k res => (s.worker k).localWork.map fun hs => (k, hs, res)
  | _ => none

/-- The lookups of worker `k` in a trace, with what they returned. -/
abbrev lookups (k : ℕ) (tr : List (State × Action)) : List (HostService × Option AddrInfoPtr) :=
  Machine.history lookup k tr

/-- What a worker has published last. -/
def result (s : State) (k : ℕ) : HostService × Option AddrInfoPtr :=
  ((s.worker k).resWork, (s.worker k).res)

/-! ## Who changes a result -/

theorem result_update (h : ∃ k w, t.worker = Function.update s.worker k w ∧
    w.resWork = (s.worker k).resWork ∧ w.res = (s.worker k).res) (k' : ℕ) :
    t.result k' = s.result k' := by
  obtain ⟨k, w, hworker, hwork, hres⟩ := h
  unfold result
  rw [hworker, Function.update_apply]
  split_ifs with hk
  · rw [hk, hwork, hres]
  · rfl

theorem result_assignWork (hstep : s.assignWork = some t) (k : ℕ) :
    t.result k = s.result k ∧ t.queue = s.queue := by
  have hqueue : s.createWorkers.queue = s.queue := by
    unfold createWorkers
    split <;> rfl
  have hsame : s.createWorkers.result k = s.result k := by
    rw [result, s.createWorkers_frame.2.1]
    rfl
  rcases assignWork_cases hstep with ⟨k', free, addr, waiting, i, hs, -, -, -, rfl⟩ | ⟨-, rfl⟩
  · exact ⟨(result_update ⟨k', _, rfl, by rfl, by rfl⟩ k).trans hsame, hqueue⟩
  · exact ⟨hsame, hqueue⟩

theorem result_returnWorkerWith (s : State) (addr : Addr) (k : ℕ) :
    (s.returnWorkerWith addr).result k = s.result k ∧
      (s.returnWorkerWith addr).queue = s.queue := by
  obtain ⟨working, returned, heq, -, -⟩ := s.returnWorkerWith_spec addr
  rw [heq]
  exact ⟨rfl, rfl⟩

/-- **Only a publication changes a result**, and puts its worker's message into the queue. -/
theorem result_of_step {act : Action} (hstep : s.step act = some t) (k : ℕ) :
    (∃ r, eventAbout lookup k s act = some r ∧ t.result k = r) ∨
      (eventAbout lookup k s act = none ∧ t.result k = s.result k ∧
        (k ∈ t.queue → k ∈ s.queue)) := by
  cases act with
  | construct addr hs =>
      obtain ⟨objects, -, hassign⟩ := construct_cases hstep
      obtain ⟨hresult, hqueue⟩ := result_assignWork hassign k
      exact .inr ⟨rfl, hresult, fun hk => hqueue ▸ hk⟩
  | destroy addr =>
      obtain ⟨j, -, ⟨-, rfl⟩ | ⟨-, rfl⟩⟩ := destroy_cases hstep
      · exact .inr ⟨rfl, rfl, id⟩
      · obtain ⟨hresult, hqueue⟩ := s.result_returnWorkerWith addr k
        exact .inr ⟨rfl, hresult, fun hk => hqueue ▸ hk⟩
  | take k' =>
      obtain ⟨hs, rest, -, -, rfl⟩ := take_cases hstep
      exact .inr ⟨rfl, result_update ⟨k', _, rfl, by rfl, by rfl⟩ k, id⟩
  | publish k' res =>
      obtain ⟨hs, hlocal, -, rfl⟩ := publish_cases hstep
      have hlookup : s.lookup (.publish k' res) = some (k', hs, res) := by
        rw [lookup, hlocal, Option.map_some]
      by_cases hk : k' = k
      · left
        refine ⟨(hs, res), eventAbout_eq_some.mpr (hk ▸ hlookup), ?_⟩
        unfold result setWorker
        dsimp only
        rw [hk, Function.update_self]
      · right
        refine ⟨?_, ?_, fun hin => ?_⟩
        · rw [eventAbout, hlookup, Option.bind_some, if_neg hk]
        · unfold result setWorker
          dsimp only
          rw [Function.update_of_ne (Ne.symm hk)]
        · rcases List.mem_append.mp hin with hin | hin
          · exact hin
          · exact absurd (List.mem_singleton.mp hin).symm hk
  | deliver stale =>
      obtain ⟨k', queue, -, hqueue, rfl | ⟨addr, -, -, rfl⟩⟩ := deliver_cases hstep
      · refine .inr ⟨rfl, result_update ⟨k', _, rfl, by rfl, by rfl⟩ k, fun hk => ?_⟩
        rw [hqueue]
        exact List.mem_cons_of_mem _ hk
      · obtain ⟨hresult, hsame⟩ := result_returnWorkerWith { s with queue := queue } addr k
        refine .inr ⟨rfl, hresult, fun hk => ?_⟩
        rw [hqueue]
        rw [hsame] at hk
        exact List.mem_cons_of_mem _ hk
  | ret =>
      obtain ⟨k', addr, u, -, hassign, rfl⟩ := ret_cases hstep
      obtain ⟨hresult, hqueue⟩ := result_assignWork hassign k
      refine .inr ⟨rfl, ?_, fun hk => hqueue ▸ hk⟩
      exact (result_update ⟨k', _, rfl, by rfl, by rfl⟩ k).trans hresult

/-- What a worker has published last is what its last lookup returned, and its message
waits only when there has been one. -/
structure Recorded (k : ℕ) (tr : List (State × Action)) (s : State) : Prop where
  latest : ∀ r, (lookups k tr).getLast? = some r → s.result k = r
  queued : k ∈ s.queue → lookups k tr ≠ []

theorem recorded_of_run {tr : List (State × Action)} (hrun : Runs .init tr s) (k : ℕ) :
    Recorded k tr s := by
  induction hrun with
  | nil => exact ⟨fun r hr => by simp at hr, fun hk => by simp [init] at hk⟩
  | @snoc tr s t act _ hstep ih =>
      rcases result_of_step hstep k with ⟨r, hnow, hresult⟩ | ⟨hnone, hresult, hqueue⟩
      · constructor
        · intro r' hr'
          rw [lookups, history_snoc, hnow, Option.toList_some, List.getLast?_concat] at hr'
          rw [hresult, Option.some.inj hr']
        · intro _
          rw [lookups, history_snoc, hnow]
          simp
      · have hsame : lookups k (tr ++ [(s, act)]) = lookups k tr := by
          rw [lookups, history_snoc, hnone, Option.toList_none, List.append_nil]
        exact ⟨fun r hr => hresult.trans (ih.latest r (hsame ▸ hr)),
          fun hk => hsame ▸ ih.queued (hqueue hk)⟩

/-- A callback on a live request comes from the worker whose message is first in the queue,
and passes the guard of `onCall`. -/
theorem calls_cases {act : Action} {addr : Addr} {res : Option AddrInfoPtr} {i : ℕ}
    {hs : HostService} (hstep : s.step act = some t) (hcall : s.calls act = some (addr, res))
    (hlive : s.objects.object addr = some (i, hs)) :
    ∃ k queue, s.queue = k :: queue ∧ (s.worker k).addr = some addr ∧
      s.result k = (hs, res) := by
  unfold calls at hcall
  rw [hstep] at hcall
  cases act with
  | deliver stale =>
      obtain ⟨k, queue, hidle, hqueue, rfl | ⟨addr', haddr, hmatch, rfl⟩⟩ := deliver_cases hstep
      · simp only [Option.map_some, setWorker, hidle] at hcall
        cases hcall
      · cases hcall
        obtain ⟨hhost, hservice⟩ := hmatch i hs hlive
        refine ⟨k, queue, hqueue, haddr, ?_⟩
        have hsame : (s.worker k).resWork = hs := by
          obtain ⟨host, service⟩ := hs
          exact (congrArg₂ HostService.mk hhost hservice).symm
        rw [result, hsame]
  | construct addr hs => cases hcall
  | destroy addr => cases hcall
  | take k => cases hcall
  | publish k res => cases hcall
  | ret => cases hcall

/-- **Results go to the request they were looked up for.**  In every run, when
`on_resolved` is called on a live request, the worker that calls it points to the request,
its last lookup was for the host and service of the request, and the value passed on is
what this lookup returned. -/
theorem resolved_own_lookup {tr : List (State × Action)} (hrun : Runs .init tr s) :
    ∀ pre p post, tr = pre ++ p :: post → ∀ addr res i hs,
      p.1.calls p.2 = some (addr, res) → p.1.objects.object addr = some (i, hs) →
        ∃ k, p.1.queue.head? = some k ∧ (p.1.worker k).addr = some addr ∧
          (lookups k pre).getLast? = some (hs, res) := by
  rintro pre p post rfl addr res i hs hcall hlive
  obtain ⟨t, hpre, hrest⟩ := hrun.split
  obtain ⟨rfl, u, hstep, -⟩ := Machine.Run.cons_iff.mp hrest
  obtain ⟨k, queue, hqueue, haddr, hresult⟩ := calls_cases hstep hcall hlive
  have hrecorded := recorded_of_run hpre k
  have hne : lookups k pre ≠ [] := hrecorded.queued (hqueue ▸ List.mem_cons_self)
  obtain ⟨r, hr⟩ := Option.ne_none_iff_exists'.mp (mt List.getLast?_eq_none_iff.mp hne)
  refine ⟨k, by rw [hqueue, List.head?_cons], haddr, ?_⟩
  rw [hr, ← hresult, hrecorded.latest r hr]

/-- A request is destroyed while its lookup is under way, and its worker is given another
one: the first result is delivered to nobody, and the second request gets its own. -/
theorem resolved_own_lookup_example : ∃ pre s t, Runs .init (pre ++ [(s, .deliver)]) t ∧
    actions pre = [.construct 1 ⟨"a", "80"⟩, .take 1, .destroy 1, .construct 2 ⟨"b", "80"⟩,
      .publish 1 (some 7), .deliver, .take 1, .publish 1 (some 8)] ∧
    s.calls .deliver = some (2, some 8) ∧
    ∃ k, s.queue.head? = some k ∧ (s.worker k).addr = some 2 ∧
      (lookups k pre).getLast? = some (⟨"b", "80"⟩, some 8) := by
  let acts : List Action := [.construct 1 ⟨"a", "80"⟩, .take 1, .destroy 1,
    .construct 2 ⟨"b", "80"⟩, .publish 1 (some 7), .deliver, .take 1, .publish 1 (some 8)]
  let s := (exec State.step .init acts).get (by decide)
  let t := (s.step .deliver).get (by decide)
  have hs : exec State.step .init acts = some s := (Option.some_get _).symm
  have hdeliver : Fires State.step s .deliver t := (Option.some_get _).symm
  obtain ⟨hpre, hacts⟩ := exec_trace _ _ _ _ hs
  have hrun := hpre.snoc hdeliver
  exact ⟨_, s, t, hrun, hacts, by decide,
    resolved_own_lookup hrun _ _ [] rfl 2 (some 8) 1 ⟨"b", "80"⟩ (by decide) (by decide)⟩

end State

end Resolver

end Craplib
