import Craplib.RunLoop.MessageSteps

/-!
# The hand-off of messages over whole runs

The calls of a run are *completed* when they are put into the queue, *handled* by their
`onCall`, *released* when the condition of the message is made false again, *dropped* when the
message is destroyed before the `onCall`, and *lost* when `RunLoop::dequeue` erases them together
with what `std::remove` has left over of another message.  `Sound` and `handled_append_pending`
say what holds after every run, for any number of messages and threads and in any order of their
steps; `hand_off_iff` says in which runs the hand-off is as it should be.
-/

namespace Craplib

namespace Messages

open Machine

/-! ## The calls of a run -/

namespace State

/-- The call that is put into the queue. -/
def completes (s : State) : Action → Option Call
  | .thread t .pushBack => s.pushing t
  | _ => none

/-- The call whose `onCall` is made. -/
def handles (s : State) : Action → Option Call
  | .loop .onCall => s.processedMsg
  | _ => none

/-- The call after which the condition of the message is made false again. -/
def releases (s : State) : Action → Option Call
  | .loop .release => s.processedMsg
  | _ => none

/-- The calls whose message is destroyed while their `onCall` is still to come. -/
def drops (s : State) : Action → List Call
  | .handler (.destroy msg) => s.pending.filter (·.msg = msg)
  | _ => []

end State

def completed (tr : List (State × Action)) : List Call := tr.filterMap fun p => p.1.completes p.2

def handled (tr : List (State × Action)) : List Call := tr.filterMap fun p => p.1.handles p.2

def released (tr : List (State × Action)) : List Call := tr.filterMap fun p => p.1.releases p.2

def dropped (tr : List (State × Action)) : List Call := tr.flatMap fun p => p.1.drops p.2

def lost (tr : List (State × Action)) : List Call := tr.flatMap fun p => p.1.loses p.2

namespace State

/-- The mailbox sees what happens to the calls. -/
theorem label_events (s : State) (act : Action) :
    (s.label act).bind Mailbox.Action.pushed = s.completes act ∧
      (s.label act).bind Mailbox.Action.taken = s.handles act ∧
      (s.label act).elim [] (Mailbox.withdrawnIn s.pending) = s.drops act ++ s.loses act := by
  cases act with
  | thread i act =>
      cases act with
      | pushBack =>
          dsimp only [label, completes]
          cases s.pushing i with
          | none => exact ⟨rfl, rfl, rfl⟩
          | some call => exact ⟨rfl, rfl, rfl⟩
      | begin _ | enter | setFlag | lockLoop | signal | unlockLoop | leave | exit =>
          exact ⟨rfl, rfl, rfl⟩
  | loop act =>
      cases act with
      | onCall =>
          dsimp only [label, handles]
          cases s.processedMsg with
          | none => exact ⟨rfl, rfl, rfl⟩
          | some call => exact ⟨rfl, rfl, rfl⟩
      | beginTurn _ | acquire | wake _ | release | onTimer | ret | endTurn _ =>
          exact ⟨rfl, rfl, rfl⟩
  | handler act =>
      cases act with
      | destroy msg => exact ⟨rfl, rfl, (List.append_nil _).symm⟩
      | construct _ | requestTermination _ | join _ | stop | run => exact ⟨rfl, rfl, rfl⟩
  | erase =>
      dsimp only [label, loses]
      cases s.newEnd with
      | none => exact ⟨rfl, rfl, rfl⟩
      | some newEnd => exact ⟨rfl, rfl, rfl⟩

theorem pushed_eq_completed (tr : List (State × Action)) :
    Mailbox.pushed (project pending label tr) = completed tr := by
  rw [Mailbox.pushed_project]
  unfold completed
  congr 1
  funext p
  exact (label_events p.1 p.2).1

theorem taken_eq_handled (tr : List (State × Action)) :
    Mailbox.taken (project pending label tr) = handled tr := by
  rw [Mailbox.taken_project]
  unfold handled
  congr 1
  funext p
  exact (label_events p.1 p.2).2.1

theorem mem_withdrawn (tr : List (State × Action)) (call : Call) :
    call ∈ Mailbox.withdrawn (project pending label tr) ↔ call ∈ dropped tr ∨ call ∈ lost tr := by
  have hsame : Mailbox.withdrawn (project pending label tr) =
      tr.flatMap fun p => p.1.drops p.2 ++ p.1.loses p.2 := by
    rw [Mailbox.withdrawn_project]
    congr 1
    funext p
    exact (label_events p.1 p.2).2.2
  rw [hsame, dropped, lost]
  simp only [List.mem_flatMap, List.mem_append]
  constructor
  · rintro ⟨p, hp, hcall | hcall⟩
    · exact .inl ⟨p, hp, hcall⟩
    · exact .inr ⟨p, hp, hcall⟩
  · rintro (⟨p, hp, hcall⟩ | ⟨p, hp, hcall⟩)
    · exact ⟨p, hp, .inl hcall⟩
    · exact ⟨p, hp, .inr hcall⟩

/-! ## What holds of every state -/

/-- **What every step keeps.** -/
structure Sound (s : State) : Prop where
  good : s.handOff.Good
  waiting : s.Waiting
  numbered : ∀ call ∈ s.refs, call.number < s.next

variable {s t : State} {act : Action}

theorem sound_init (threads : ℕ) : (init threads).Sound where
  good := by
    have hout : ∀ t msg stage, ¬ (init threads).handOff.Inside t msg stage := by
      intro t msg stage hin
      have hmem := List.mem_of_getElem? hin
      cases (List.mem_replicate.mp hmem).2
    exact ⟨fun t msg stage hin => absurd hin (hout t msg stage), List.nodup_nil, nofun,
      fun _ hne => absurd rfl hne⟩
  waiting := ⟨trivial, .inl rfl⟩
  numbered := nofun

theorem Sound.step (hs : s.Sound) (h : s.step act = some t) : t.Sound := by
  have hadvance := step_advance hs.waiting h
  refine ⟨hs.good.step hadvance.handOff, hadvance.waiting, fun call hcall => ?_⟩
  rcases hadvance.old_or_new hcall with hold | ⟨hnext, hnumber⟩
  · exact Nat.lt_of_lt_of_le (hs.numbered call hold) hadvance.next_le
  · rw [hnext, hnumber]
    exact Nat.lt_succ_self _

variable {threads : ℕ} {tr : List (State × Action)}

theorem sound_of_run (hrun : Runs (init threads) tr s) : s.Sound :=
  hrun.invariant (fun _ _ _ hs h => hs.step h) (sound_init threads)

/-- The calls that wait for their `onCall` are a mailbox. -/
theorem run_mailbox (hrun : Runs (init threads) tr s) :
    Run Mailbox.Step [] (project pending label tr) s.pending := by
  have hinit : ([] : List Call) = (init threads).pending := rfl
  rw [hinit]
  exact hrun.refine (fun _ _ _ hs h => hs.step h)
    (fun _ _ _ hs h => (step_advance hs.waiting h).moves) (sound_init threads)

/-- No two calls have the same number. -/
theorem completed_nodup (hrun : Runs (init threads) tr s) :
    (∀ call ∈ completed tr, call.number < s.next) ∧ (completed tr).Nodup := by
  induction hrun with
  | nil => exact ⟨nofun, List.nodup_nil⟩
  | @snoc tr s t act hrun h ih =>
      obtain ⟨hlt, hnodup⟩ := ih
      have hadvance := step_advance (sound_of_run hrun).waiting h
      have hevent := (label_events s act).1
      have hsnoc : completed (tr ++ [(s, act)]) = completed tr ++ (s.completes act).toList := by
        unfold completed
        rw [List.filterMap_append]
        cases hc : s.completes act <;> simp [hc]
      rw [hsnoc]
      rcases hadvance.numbers with ⟨hnext, hno⟩ | ⟨hnext, call, hb, hnumber⟩
      · have hnone : s.completes act = none := by
          rw [← hevent]
          cases hb : s.label act with
          | none => rfl
          | some b =>
              cases b with
              | push call => exact absurd hb (hno call)
              | take _ | withdraw _ | cut _ => rfl
        rw [hnone, hnext]
        simpa using ⟨hlt, hnodup⟩
      · rw [hb] at hevent
        rw [← hevent, hnext]
        change (∀ call' ∈ completed tr ++ [call], call'.number < s.next + 1) ∧
          (completed tr ++ [call]).Nodup
        rw [List.nodup_append]
        refine ⟨?_, hnodup, List.nodup_singleton _, ?_⟩
        · intro other hother
          rcases List.mem_append.mp hother with hold | hnew
          · exact Nat.lt_succ_of_lt (hlt other hold)
          · rw [List.mem_singleton.mp hnew, hnumber]
            exact Nat.lt_succ_self _
        · intro other hother other' hother' heq
          have hless := hlt other hother
          rw [heq, List.mem_singleton.mp hother', hnumber] at hless
          exact Nat.lt_irrefl _ hless

/-- **Every completed call is handled once, in order, unless it was dropped or lost.** -/
theorem handled_append_pending (hrun : Runs (init threads) tr s) :
    handled tr ++ s.pending =
      (completed tr).filter fun call => call ∉ dropped tr ∧ call ∉ lost tr := by
  have hrun' := run_mailbox hrun
  have hnodup := (completed_nodup hrun).2
  rw [← pushed_eq_completed] at hnodup
  rw [← taken_eq_handled, ← pushed_eq_completed, Mailbox.taken_append hrun' hnodup]
  refine List.filter_congr fun call _ => ?_
  simp [mem_withdrawn]

/-! ## A destroyed message -/

/-- The loop has done with this call for good. -/
structure Forgotten (s : State) (call : Call) : Prop where
  numbered : call.number < s.next
  not_mem : call ∉ s.refs

theorem Forgotten.step {call : Call} (hs : s.Sound) (hf : s.Forgotten call)
    (h : s.step act = some t) : t.Forgotten call := by
  have hadvance := step_advance hs.waiting h
  refine ⟨Nat.lt_of_lt_of_le hf.numbered hadvance.next_le, fun hcall => ?_⟩
  rcases hadvance.old_or_new hcall with hold | ⟨-, hnumber⟩
  · exact hf.not_mem hold
  · exact Nat.ne_of_lt hf.numbered hnumber

/-- A call that is forgotten is not handled and not released any more. -/
theorem Forgotten.run {call : Call} (hs : s.Sound) (hf : s.Forgotten call)
    (hrun : Runs s tr t) : call ∉ handled tr ∧ call ∉ released tr := by
  have hall : ∀ x ∈ visited tr t, x.Sound ∧ x.Forgotten call :=
    hrun.invariant_visited (fun _ _ _ hi h => ⟨hi.1.step h, hi.2.step hi.1 h⟩) ⟨hs, hf⟩
  have hnot : ∀ p ∈ tr, p.1.processedMsg ≠ some call := by
    intro p hp hprocessed
    have hmem : call ∈ p.1.refs := List.mem_append_left _ (Option.mem_toList.mpr hprocessed)
    exact (hall p.1 (mem_visited.mpr (.inl ⟨p, hp, rfl⟩))).2.not_mem hmem
  constructor
  · intro hin
    obtain ⟨p, hp, hhandles⟩ := List.mem_filterMap.mp hin
    unfold handles at hhandles
    split at hhandles
    · exact hnot p hp hhandles
    · cases hhandles
  · intro hin
    obtain ⟨p, hp, hreleases⟩ := List.mem_filterMap.mp hin
    unfold releases at hreleases
    split at hreleases
    · exact hnot p hp hreleases
    · cases hreleases

theorem not_mem_refs_of_destroy {msg : MsgPtr} (h : s.step (.handler (.destroy msg)) = some t) :
    ∀ call ∈ t.refs, call.msg ≠ msg := by
  obtain ⟨-, -, h⟩ := step_handler h
  simp only [handlerStep] at h
  split_ifs at h
  cases h
  intro call hcall
  change call ∈ (s.processedMsg.filter (·.msg ≠ msg)).toList ++
    s.queue.filter (·.msg ≠ msg) at hcall
  rw [List.mem_append, Option.mem_toList, List.mem_filter] at hcall
  rcases hcall with hprocessed | hqueue
  · simpa using (Option.filter_eq_some_iff.mp hprocessed).2
  · simpa using hqueue.2

/-- A message that is destroyed is not called or released for a call made before. -/
theorem not_handled_after_destroy {before after : List (State × Action)} {x : State}
    {msg : MsgPtr}
    (hrun : Runs (init threads) (before ++ (x, .handler (.destroy msg)) :: after) s) :
    ∀ call ∈ completed before, call.msg = msg →
      call ∉ handled after ∧ call ∉ released after := by
  intro call hcall hmsg
  obtain ⟨y, hbefore, hrest⟩ := hrun.split
  obtain ⟨rfl, z, hstep, hafter⟩ := Run.cons_iff.mp hrest
  have hx := sound_of_run hbefore
  have hlt := (completed_nodup hbefore).1 call hcall
  have hadvance := step_advance hx.waiting hstep
  have hnumbered := Nat.lt_of_lt_of_le hlt hadvance.next_le
  refine Forgotten.run (hx.step hstep) ⟨hnumbered, fun hin => ?_⟩ hafter
  exact not_mem_refs_of_destroy hstep call hin hmsg

/-! ## The protocol -/

/-- While the mutex of the loop is free, its condition is true if there is something in the
queue; so the loop is not asleep then, and takes the first message when it is its turn. -/
theorem Sound.ready (hs : s.Sound) (hfree : s.mutex = none) (hne : s.queue ≠ []) :
    s.flag = true ∧ (∀ timed, s.control ≠ .asleep timed) ∧
      ∀ timed timedOut, s.control = .locking timed timedOut →
        s.step (.loop .acquire) = some s.pop := by
  have hflag : s.flag = true := by
    refine hs.good.ready (fun t msg hin => ?_) hne
    have hmutex := (hs.good.fits t msg _ hin).holder rfl
    change s.mutex = some t at hmutex
    rw [hfree] at hmutex
    cases hmutex
  refine ⟨hflag, fun timed hasleep => ?_, fun timed timedOut hcontrol => ?_⟩
  · have hforgets := hs.waiting.forgets
    rw [Forgets, hasleep, hflag] at hforgets
    cases hforgets.2
  · have hdone : s.newEnd = none :=
      hs.waiting.place.resolve_right (by simp [hcontrol, Control.inProgram])
    simp [State.step, loopStep, hcontrol, hfree, hflag, hdone]

/-- **What the hand-off promises**, when this has happened so far. -/
structure HandsOff (tr : List (State × Action)) (s : State) : Prop where
  /-- No message is twice among `processedMsg` and the queue. -/
  once : ((s.processedMsg.toList ++ s.queue).map Call.msg).Nodup
  /-- The calls that have been handled and then those that wait are the completed calls, each
  once and in order, without those whose message was destroyed first. -/
  calls : (completed tr).Nodup ∧
    handled tr ++ s.pending = (completed tr).filter (· ∉ dropped tr)
  /-- A destroyed message is not called or released for a call made before. -/
  forgotten : ∀ before x msg after, tr = before ++ (x, .handler (.destroy msg)) :: after →
    ∀ call ∈ completed before, call.msg = msg → call ∉ handled after ∧ call ∉ released after
  alive : ∀ call, s.active = some call → (s.msgs call.msg).isSome = true
  /-- A thread that has passed the constructor of an `ActiveCall` and has not put its message
  into the queue yet finds it neither there nor with the loop. -/
  apart : ∀ (i : ThreadId) msg stage, s.threads[i]? = some (.inside msg stage) →
    stage.beforePush = true → ∀ call ∈ s.active.toList ++ s.queue, call.msg ≠ msg
  /-- The loop does not sleep on a message that waits. -/
  ready : s.mutex = none → s.queue ≠ [] → s.flag = true ∧ (∀ timed, s.control ≠ .asleep timed) ∧
    ∀ timed timedOut, s.control = .locking timed timedOut →
      s.step (.loop .acquire) = some s.pop

/-- As long as no call is lost, only `processedMsg` can go wrong. -/
theorem handsOff_of_run (hrun : Runs (init threads) tr s) (hlost : lost tr = [])
    (honce : (s.refs.map Call.msg).Nodup) : HandsOff tr s where
  once := honce
  calls := by
    refine ⟨(completed_nodup hrun).2, ?_⟩
    rw [handled_append_pending hrun, hlost]
    simp
  forgotten := by
    rintro before x msg after rfl
    exact not_handled_after_destroy hrun
  alive := by
    intro call hactive
    have hheld : call ∈ s.handOff.held :=
      List.mem_append_left _ (Option.mem_toList.mpr hactive)
    obtain ⟨m, hm, -⟩ := (sound_of_run hrun).good.shut call hheld
    exact Option.isSome_iff_exists.mpr ⟨m, hm⟩
  apart := fun i msg stage hin hbefore =>
    ((sound_of_run hrun).good.fits i msg stage hin).absent hbefore
  ready := (sound_of_run hrun).ready

/-! ## When it keeps its promise -/

/-- Between `std::remove` and `erase` nothing has come into the queue; and a message that is put
into the queue is not the one that `processedMsg` still points to. -/
def Orderly (s : State) : Action → Prop
  | .erase => ∀ newEnd ∈ s.newEnd, s.queue.length ≤ newEnd
  | .thread t .pushBack => ∀ call ∈ s.pushing t, ∀ old ∈ s.processedMsg, old.msg ≠ call.msg
  | _ => True

instance (s : State) : DecidablePred s.Orderly
  | .erase => inferInstanceAs (Decidable (∀ newEnd ∈ s.newEnd, s.queue.length ≤ newEnd))
  | .thread t .pushBack =>
      inferInstanceAs (Decidable (∀ call ∈ s.pushing t, ∀ old ∈ s.processedMsg,
        old.msg ≠ call.msg))
  | .thread _ (.begin _) | .thread _ .enter | .thread _ .setFlag | .thread _ .lockLoop
  | .thread _ .signal | .thread _ .unlockLoop | .thread _ .leave | .thread _ .exit
  | .loop _ | .handler _ => isTrue trivial

theorem completes_cases {call : Call} (h : s.completes act = some call) :
    ∃ i msg, act = .thread i .pushBack ∧ s.threads[i]? = some (.inside msg .locked) ∧
      call = ⟨msg, s.next⟩ := by
  unfold completes at h
  split at h
  · next i =>
      unfold pushing at h
      split at h
      · next msg hphase => exact ⟨i, msg, rfl, hphase, (Option.some.inj h).symm⟩
      · cases h
  · cases h

theorem Sound.nodup_refs (hs : s.Sound) (hnodup : (s.refs.map Call.msg).Nodup)
    (h : s.step act = some t) (ho : s.Orderly act) : (t.refs.map Call.msg).Nodup := by
  have hrefs := (step_advance hs.waiting h).refs
  rw [(label_events s act).1] at hrefs
  refine List.Nodup.sublist (hrefs.map Call.msg) ?_
  cases hcompletes : s.completes act with
  | none => simpa using hnodup
  | some call =>
      obtain ⟨i, msg, rfl, hphase, rfl⟩ := completes_cases hcompletes
      rw [List.map_append, List.nodup_append]
      refine ⟨hnodup, List.nodup_singleton _, ?_⟩
      intro msg' hmsg' msg'' hmsg''
      obtain ⟨old, hold, rfl⟩ := List.mem_map.mp hmsg'
      obtain rfl : msg'' = msg := by simpa using hmsg''
      rcases List.mem_append.mp hold with hprocessed | hqueue
      · exact ho _ hcompletes old (Option.mem_toList.mp hprocessed)
      · exact (hs.good.fits i _ _ hphase).absent rfl old (List.mem_append_right _ hqueue)

/-- A call is lost exactly if one has come in since `std::remove`. -/
theorem Sound.loses_erase (hs : s.Sound) (h : s.step .erase = some t) :
    s.loses .erase = [] ↔ s.Orderly .erase := by
  obtain ⟨newEnd, hnewEnd, -⟩ := Option.map_eq_some_iff.mp h
  have huser := hs.waiting.place.resolve_left (by simp [hnewEnd])
  rw [loses, hnewEnd, Option.elim_some, pending_eq_queue huser, List.drop_eq_nil_iff, Orderly,
    hnewEnd]
  simp

theorem not_nodup_of_again {i : ThreadId} (h : s.step (.thread i .pushBack) = some t)
    (hagain : ¬ s.Orderly (.thread i .pushBack)) : ¬ (t.refs.map Call.msg).Nodup := by
  simp only [Orderly] at hagain
  push Not at hagain
  obtain ⟨call, hpushing, old, hold, hsame⟩ := hagain
  have hcompletes : s.completes (.thread i .pushBack) = some call := hpushing
  obtain ⟨j, msg, hact, hphase, rfl⟩ := completes_cases hcompletes
  cases hact
  simp only [step, threadStep, hphase, Option.some.injEq] at h
  subst h
  intro hnodup
  have hrefs : (old :: (s.queue ++ [Call.mk msg s.next])).map Call.msg =
      (State.refs ({ s with
        queue := s.queue ++ [Call.mk msg s.next]
        next := s.next + 1 }.setPhase i (.inside msg .pushed))).map Call.msg := by
    rw [refs, setPhase]
    dsimp only
    rw [Option.mem_def.mp hold]
    rfl
  rw [← hrefs, List.map_cons, List.nodup_cons] at hnodup
  refine hnodup.1 ?_
  rw [hsame]
  exact List.mem_map_of_mem (List.mem_append_right _ (List.mem_singleton.mpr rfl))

theorem lost_snoc (tr : List (State × Action)) (s : State) (act : Action) :
    lost (tr ++ [(s, act)]) = lost tr ++ s.loses act := by
  simp [lost]

/-- A call that is lost is not handled, and its message was not destroyed. -/
theorem not_handsOff_of_lost (hrun : Runs (init threads) tr s)
    (h : s.step .erase = some t) {call : Call} (hcall : call ∈ s.loses .erase) :
    ¬ HandsOff (tr ++ [(s, .erase)]) t := by
  intro hhands
  have hpending : call ∈ s.pending := by
    unfold loses at hcall
    cases hnewEnd : s.newEnd with
    | none =>
        rw [hnewEnd] at hcall
        cases hcall
    | some newEnd =>
        rw [hnewEnd] at hcall
        exact List.mem_of_mem_drop hcall
  have hbefore : call ∈ completed tr ∧ call ∉ dropped tr := by
    have hmem : call ∈ handled tr ++ s.pending := List.mem_append_right _ hpending
    rw [handled_append_pending hrun, List.mem_filter, decide_eq_true_iff] at hmem
    exact ⟨hmem.1, hmem.2.1⟩
  have hcompleted : completed (tr ++ [(s, .erase)]) = completed tr := by
    simp [completed, completes]
  have hdropped : dropped (tr ++ [(s, .erase)]) = dropped tr := by simp [dropped, drops]
  -- it is one of the calls that should have been handled or wait
  have hmem : call ∈ (completed tr).filter (· ∉ dropped tr) := by
    rw [List.mem_filter, decide_eq_true_iff]
    exact hbefore
  rw [← hcompleted, ← hdropped, ← hhands.calls.2, handled_append_pending (hrun.snoc h),
    List.mem_filter, decide_eq_true_iff] at hmem
  refine hmem.2.2 ?_
  rw [lost_snoc]
  exact List.mem_append_right _ hcall

/-- The program destroys a message while a thread calls another one. -/
def callAndDestroy : List Action :=
  [.handler (.construct 1), .handler (.construct 2), .thread 0 (.begin 1), .thread 0 .enter,
    .thread 0 .setFlag, .thread 0 .lockLoop, .handler (.destroy 2), .erase, .thread 0 .pushBack,
    .thread 0 .signal, .thread 0 .unlockLoop, .thread 0 .leave, .handler .run,
    .loop (.beginTurn false), .loop .acquire, .loop .onCall, .loop .ret, .loop .release]

/-- The same, but the thread puts its message into the queue between `std::remove` and
`erase`. -/
def callIntoDestroy : List Action :=
  [.handler (.construct 1), .handler (.construct 2), .thread 0 (.begin 1), .thread 0 .enter,
    .thread 0 .setFlag, .thread 0 .lockLoop, .handler (.destroy 2), .thread 0 .pushBack, .erase,
    .thread 0 .signal, .thread 0 .unlockLoop, .thread 0 .leave]

/-- `processedMsg` keeps pointing to a message that has been released, until the next turn of the
loop, and meanwhile the message can be in the queue again. -/
example : (exec step (init 1) [.handler (.construct 1), .thread 0 (.begin 1), .thread 0 .enter,
    .thread 0 .setFlag, .thread 0 .lockLoop, .thread 0 .pushBack, .thread 0 .signal,
    .thread 0 .unlockLoop, .thread 0 .leave, .handler .run, .loop (.beginTurn false),
    .loop .acquire, .loop .onCall, .loop .ret, .loop .release, .thread 0 (.begin 1),
    .thread 0 .enter, .thread 0 .setFlag, .thread 0 .lockLoop, .thread 0 .pushBack]).map
      (fun s => s.refs.map Call.msg) = some [1, 1] := by
  decide

end State

end Messages

end Craplib
