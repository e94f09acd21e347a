import Mathlib.Data.List.Nodup
import Craplib.RunLoop.Messages

/-!
# The hand-off of messages

What the threads and the run loop share, without the loop's own control: `HandOff` has the
messages with their conditions, the message that the loop has popped and not released, the
queue, the mutex and the condition of the loop, and the threads.  `HandOff.Step` is what
can happen to these, and `Good` what every step keeps.

`Good` is about who may touch what.  A thread in an `ActiveCall` holds the mutex of the
message, a thread in `RunLoop::enqueue` that of the loop.  A message that is in the queue
or not released yet keeps everyone out of its `ActiveCall`: its condition is true, or it is
to terminate and the constructor throws.  So the thread that does get in finds its message
nowhere in the queue, until it puts it there itself.
-/

namespace Craplib

namespace Messages

/-- The stages before the message is in the queue. -/
def Stage.beforePush : Stage → Bool
  | .constructed | .flagged | .locked => true
  | .pushed | .signalled | .called => false

/-- The stages inside `RunLoop::enqueue`. -/
def Stage.locksLoop : Stage → Bool
  | .locked | .pushed | .signalled => true
  | .constructed | .flagged | .called => false

/-- What the threads and the run loop share. -/
structure HandOff where
  msgs : MsgPtr → Option ActiveMsg
  /-- The message that has been popped and not been released. -/
  active : Option Call
  queue : List Call
  flag : Bool
  mutex : Option ThreadId
  threads : List Phase
  next : ℕ

namespace HandOff

/-- The messages that the loop has not released yet, in order. -/
def held (h : HandOff) : List Call := h.active.toList ++ h.queue

def setMsg (h : HandOff) (msg : MsgPtr) (m : ActiveMsg) : HandOff :=
  { h with msgs := Function.update h.msgs msg (some m) }

def setPhase (h : HandOff) (t : ThreadId) (phase : Phase) : HandOff :=
  { h with threads := h.threads.set t phase }

/-- The thread is in an `ActiveCall` of this message. -/
def Inside (h : HandOff) (t : ThreadId) (msg : MsgPtr) (stage : Stage) : Prop :=
  h.threads[t]? = some (.inside msg stage)

/-- **What can happen to the shared data**, and the calls that get lost in it. -/
inductive Step (h : HandOff) : List Call → HandOff → Prop
  | idle : Step h [] h
  /-- The loop takes the first message of the queue, if there is one. -/
  | pop (inactive : h.active = none) :
      Step h [] { h with
        active := h.queue.head?
        queue := h.queue.tail
        flag := !h.queue.tail.isEmpty }
  /-- The loop makes the condition of the popped message false again. -/
  | release {call : Call} {m : ActiveMsg} (popped : h.active = some call)
      (alive : h.msgs call.msg = some m) (unlocked : m.mutex = none) :
      Step h [] { h.setMsg call.msg { m with flag := false } with active := none }
  | construct {msg : MsgPtr} (fresh : h.msgs msg = none) : Step h [] (h.setMsg msg {})
  | requestTermination {msg : MsgPtr} {m : ActiveMsg} (alive : h.msgs msg = some m)
      (unlocked : m.mutex = none) :
      Step h [] (h.setMsg msg { m with destroyed := true, flag := false })
  | destroy {msg : MsgPtr} (unused : ∀ phase ∈ h.threads, phase.msg ≠ some msg) :
      Step h [] { h with
        active := h.active.filter (·.msg ≠ msg)
        queue := h.queue.filter (·.msg ≠ msg)
        msgs := Function.update h.msgs msg none }
  /-- What is behind the new end of the queue is erased. -/
  | erase (newEnd : ℕ) :
      Step h (h.queue.drop newEnd) { h with queue := h.queue.take newEnd }
  /-- A thread that is not in an `ActiveCall` waits for one, is refused, or ends. -/
  | roam {t : ThreadId} {phase phase' : Phase} (thread : h.threads[t]? = some phase)
      (before : ∀ msg stage, phase ≠ .inside msg stage)
      (after : ∀ msg stage, phase' ≠ .inside msg stage) : Step h [] (h.setPhase t phase')
  | enter {t : ThreadId} {msg : MsgPtr} {m : ActiveMsg}
      (thread : h.threads[t]? = some (.entering msg)) (alive : h.msgs msg = some m)
      (unlocked : m.mutex = none) (down : m.flag = false) (kept : m.destroyed = false) :
      Step h [] ((h.setMsg msg { m with mutex := some t }).setPhase t (.inside msg .constructed))
  | setFlag {t : ThreadId} {msg : MsgPtr} {m : ActiveMsg} (thread : h.Inside t msg .constructed)
      (alive : h.msgs msg = some m) :
      Step h [] ((h.setMsg msg { m with flag := true }).setPhase t (.inside msg .flagged))
  | lockLoop {t : ThreadId} {msg : MsgPtr} (thread : h.Inside t msg .flagged)
      (unlocked : h.mutex = none) :
      Step h [] ({ h with mutex := some t }.setPhase t (.inside msg .locked))
  | pushBack {t : ThreadId} {msg : MsgPtr} (thread : h.Inside t msg .locked) :
      Step h [] ({ h with
        queue := h.queue ++ [Call.mk msg h.next]
        next := h.next + 1 }.setPhase t (.inside msg .pushed))
  | signal {t : ThreadId} {msg : MsgPtr} (thread : h.Inside t msg .pushed) :
      Step h [] ({ h with flag := !h.queue.isEmpty }.setPhase t (.inside msg .signalled))
  | unlockLoop {t : ThreadId} {msg : MsgPtr} (thread : h.Inside t msg .signalled) :
      Step h [] ({ h with mutex := none }.setPhase t (.inside msg .called))
  | leave {t : ThreadId} {msg : MsgPtr} {m : ActiveMsg} {stage : Stage}
      (thread : h.Inside t msg stage) (unlocked : stage.locksLoop = false)
      (alive : h.msgs msg = some m) :
      Step h [] ((h.setMsg msg { m with mutex := none }).setPhase t .out)

/-- What holds of a thread that is in an `ActiveCall`. -/
structure Fits (h : HandOff) (t : ThreadId) (msg : MsgPtr) (stage : Stage) : Prop where
  /-- It holds the mutex of the message, and what it set the condition to is still there when
  it puts the message into the queue. -/
  owner : ∃ m, h.msgs msg = some m ∧ m.mutex = some t ∧
    (stage = .flagged ∨ stage = .locked → m.flag = true)
  /-- Before it does, the message is nowhere in the queue. -/
  absent : stage.beforePush = true → ∀ call ∈ h.held, call.msg ≠ msg
  /-- In `RunLoop::enqueue` it holds the mutex of the loop. -/
  holder : stage.locksLoop = true → h.mutex = some t

/-- **What every step keeps.** -/
structure Good (h : HandOff) : Prop where
  fits : ∀ t msg stage, h.Inside t msg stage → h.Fits t msg stage
  nodup : (h.held.map Call.msg).Nodup
  /-- A message that is not released yet lets nobody in. -/
  shut : ∀ call ∈ h.held, ∃ m, h.msgs call.msg = some m ∧ (m.flag = true ∨ m.destroyed = true)
  /-- The condition of the loop, unless it is about to be set. -/
  ready : (∀ t msg, ¬ h.Inside t msg .pushed) → h.queue ≠ [] → h.flag = true

variable {h h' : HandOff} {t t' : ThreadId} {msg : MsgPtr} {stage : Stage}

/-! ## What a step leaves alone -/

@[simp] theorem setMsg_msgs_self (h : HandOff) (msg : MsgPtr) (m : ActiveMsg) :
    (h.setMsg msg m).msgs msg = some m := by
  simp [setMsg]

theorem setMsg_msgs_of_ne (h : HandOff) {msg msg' : MsgPtr} (hne : msg' ≠ msg) (m : ActiveMsg) :
    (h.setMsg msg m).msgs msg' = h.msgs msg' := by
  simp [setMsg, hne]

theorem inside_setPhase {phase phase' : Phase} (thread : h.threads[t]? = some phase) :
    (h.setPhase t phase').Inside t' msg stage ↔
      if t' = t then phase' = .inside msg stage else h.Inside t' msg stage := by
  have hlen : t < h.threads.length := (List.getElem?_eq_some_iff.mp thread).1
  unfold Inside setPhase
  split_ifs with heq
  · rw [heq, List.getElem?_set_self hlen, Option.some.injEq]
  · rw [List.getElem?_set_ne (Ne.symm heq)]

/-- What a thread relies on. -/
theorem Fits.frame (hf : h.Fits t msg stage) (hmsgs : h'.msgs msg = h.msgs msg)
    (hheld : ∀ call ∈ h'.held, call ∈ h.held ∨ call.msg ≠ msg)
    (hmutex : h.mutex = some t → h'.mutex = some t) : h'.Fits t msg stage where
  owner := by
    rw [hmsgs]
    exact hf.owner
  absent := by
    intro hbefore call hcall
    rcases hheld call hcall with hold | hne
    · exact hf.absent hbefore call hold
    · exact hne
  holder := fun hlocks => hmutex (hf.holder hlocks)

namespace Good

/-- One thread at a time is in an `ActiveCall` of a message. -/
theorem sole (hg : h.Good) {stage' : Stage} (hin : h.Inside t msg stage)
    (hin' : h.Inside t' msg stage') : t' = t := by
  obtain ⟨m, hm, howner, -⟩ := (hg.fits t msg stage hin).owner
  obtain ⟨m', hm', howner', -⟩ := (hg.fits t' msg stage' hin').owner
  have hsame := hm.symm.trans hm'
  rw [Option.some.injEq] at hsame
  rw [← hsame, howner, Option.some.injEq] at howner'
  exact howner'.symm

theorem not_inside_of_unlocked (hg : h.Good) {m : ActiveMsg} (hm : h.msgs msg = some m)
    (hfree : m.mutex = none) : ¬ h.Inside t msg stage := by
  intro hin
  obtain ⟨m', hm', howner, -⟩ := (hg.fits t msg stage hin).owner
  have hsame := hm.symm.trans hm'
  rw [Option.some.injEq] at hsame
  rw [← hsame, hfree] at howner
  cases howner

/-- A thread moves on, and the others find what they rely on as it was. -/
theorem fits_setPhase (hg : h.Good) {phase phase' : Phase}
    (thread : h.threads[t]? = some phase) (hthreads : h'.threads = h.threads)
    (hself : ∀ msg stage, phase' = .inside msg stage → h'.Fits t msg stage)
    (hmsgs : ∀ t' msg stage, t' ≠ t → h.Inside t' msg stage → h'.msgs msg = h.msgs msg)
    (hheld : ∀ t' msg stage, t' ≠ t → h.Inside t' msg stage →
      ∀ call ∈ h'.held, call ∈ h.held ∨ call.msg ≠ msg)
    (hmutex : ∀ t', t' ≠ t → h.mutex = some t' → h'.mutex = some t') :
    ∀ t' msg stage, (h'.setPhase t phase').Inside t' msg stage →
      (h'.setPhase t phase').Fits t' msg stage := by
  intro t' msg stage hin
  have hthread' : h'.threads[t]? = some phase := by rw [hthreads, thread]
  rw [inside_setPhase hthread'] at hin
  have hsame : h'.Fits t' msg stage → (h'.setPhase t phase').Fits t' msg stage :=
    fun hf => hf.frame rfl (fun _ hcall => .inl hcall) id
  split_ifs at hin with heq
  · rw [heq]
    rw [heq] at hsame
    exact hsame (hself msg stage hin)
  · have hin' : h.Inside t' msg stage := by
      unfold Inside at hin ⊢
      rwa [← hthreads]
    exact hsame ((hg.fits t' msg stage hin').frame (hmsgs t' msg stage heq hin')
      (hheld t' msg stage heq hin') (hmutex t' heq))

/-- …to a stage of an `ActiveCall`. -/
theorem fits_setStage (hg : h.Good) {phase : Phase} (thread : h.threads[t]? = some phase)
    (hthreads : h'.threads = h.threads) (hself : h'.Fits t msg stage)
    (hmsgs : ∀ t' msg stage, t' ≠ t → h.Inside t' msg stage → h'.msgs msg = h.msgs msg)
    (hheld : ∀ t' msg stage, t' ≠ t → h.Inside t' msg stage →
      ∀ call ∈ h'.held, call ∈ h.held ∨ call.msg ≠ msg)
    (hmutex : ∀ t', t' ≠ t → h.mutex = some t' → h'.mutex = some t') :
    ∀ t' msg' stage', (h'.setPhase t (.inside msg stage)).Inside t' msg' stage' →
      (h'.setPhase t (.inside msg stage)).Fits t' msg' stage' := by
  refine hg.fits_setPhase thread hthreads (fun msg' stage' heq => ?_) hmsgs hheld hmutex
  rw [Phase.inside.injEq] at heq
  rw [← heq.1, ← heq.2]
  exact hself

/-- A thread moves on that was not about to set the condition of the loop. -/
theorem ready_setPhase (hg : h.Good) {phase phase' : Phase}
    (thread : h.threads[t]? = some phase) (hphase : ∀ msg, phase ≠ .inside msg .pushed)
    (hthreads : h'.threads = h.threads) (hqueue : h'.queue = h.queue) (hflag : h'.flag = h.flag) :
    (∀ t' msg, ¬ (h'.setPhase t phase').Inside t' msg .pushed) → h'.queue ≠ [] →
      h'.flag = true := by
  intro hnone hne
  rw [hqueue] at hne
  rw [hflag]
  refine hg.ready (fun t' msg hin => ?_) hne
  by_cases heq : t' = t
  · rw [heq, Inside, thread, Option.some.injEq] at hin
    exact hphase msg hin
  · refine hnone t' msg ?_
    have hthread' : h'.threads[t]? = some phase := by rw [hthreads, thread]
    rw [inside_setPhase hthread', if_neg heq]
    unfold Inside at hin ⊢
    rwa [hthreads]

/-- The threads stay where they are, and nothing is done to the messages they are in. -/
theorem fits_of_untouched (hg : h.Good) (hthreads : h'.threads = h.threads)
    (hmsgs : ∀ t msg stage, h.Inside t msg stage → h'.msgs msg = h.msgs msg)
    (hheld : ∀ call ∈ h'.held, call ∈ h.held) (hmutex : h'.mutex = h.mutex) :
    ∀ t msg stage, h'.Inside t msg stage → h'.Fits t msg stage := by
  intro t msg stage hin
  have hin' : h.Inside t msg stage := by
    unfold Inside at hin ⊢
    rwa [← hthreads]
  refine (hg.fits t msg stage hin').frame (hmsgs t msg stage hin')
    (fun call hcall => .inl (hheld call hcall)) ?_
  rw [hmutex]
  exact id

/-- A message that stays shut does not let anyone in. -/
theorem shut_setMsg (hg : h.Good) {m m' : ActiveMsg} (hm : h.msgs msg = some m)
    (hshut : m.flag = true ∨ m.destroyed = true → m'.flag = true ∨ m'.destroyed = true) :
    ∀ call ∈ h.held, ∃ m, (h.setMsg msg m').msgs call.msg = some m ∧
      (m.flag = true ∨ m.destroyed = true) := by
  intro call hcall
  obtain ⟨mc, hmc, hmshut⟩ := hg.shut call hcall
  by_cases heq : call.msg = msg
  · rw [heq, hm, Option.some.injEq] at hmc
    rw [← hmc] at hmshut
    exact ⟨m', by rw [heq, setMsg_msgs_self], hshut hmshut⟩
  · exact ⟨mc, by rw [h.setMsg_msgs_of_ne heq, hmc], hmshut⟩

/-! ## The steps of the loop and of its callbacks -/

theorem pop (hg : h.Good) (inactive : h.active = none) :
    Good { h with
      active := h.queue.head?
      queue := h.queue.tail
      flag := !h.queue.tail.isEmpty } := by
  have hheld : h.queue.head?.toList ++ h.queue.tail = h.held := by
    unfold held
    rw [inactive]
    cases h.queue <;> rfl
  refine ⟨hg.fits_of_untouched rfl (fun _ _ _ _ => rfl) ?_ rfl, ?_, ?_, ?_⟩
  · intro call hcall
    exact hheld ▸ hcall
  · unfold held
    rw [hheld]
    exact hg.nodup
  · unfold held
    rw [hheld]
    exact hg.shut
  · intro _ hne
    simpa using hne

theorem release (hg : h.Good) {call : Call} {m : ActiveMsg} (popped : h.active = some call)
    (alive : h.msgs call.msg = some m) (unlocked : m.mutex = none) :
    Good { h.setMsg call.msg { m with flag := false } with active := none } := by
  have hheld : h.held = call :: h.queue := by
    rw [held, popped]
    rfl
  have hnodup := hg.nodup
  rw [hheld, List.map_cons, List.nodup_cons] at hnodup
  refine ⟨hg.fits_of_untouched rfl ?_ ?_ rfl, hnodup.2, ?_, hg.ready⟩
  · intro t msg stage hin
    refine h.setMsg_msgs_of_ne ?_ _
    rintro rfl
    exact hg.not_inside_of_unlocked alive unlocked hin
  · intro other hother
    rw [hheld]
    exact List.mem_cons_of_mem _ hother
  · intro other hother
    obtain ⟨m', hm', hshut⟩ := hg.shut other (by rw [hheld]; exact List.mem_cons_of_mem _ hother)
    refine ⟨m', ?_, hshut⟩
    have hne : other.msg ≠ call.msg := by
      intro heq
      exact hnodup.1 (heq ▸ List.mem_map_of_mem hother)
    exact (h.setMsg_msgs_of_ne hne _).trans hm'

theorem construct (hg : h.Good) (fresh : h.msgs msg = none) : (h.setMsg msg {}).Good := by
  refine ⟨hg.fits_of_untouched rfl ?_ (fun _ => id) rfl, hg.nodup, ?_, hg.ready⟩
  · intro t msg' stage hin
    refine h.setMsg_msgs_of_ne ?_ _
    rintro rfl
    obtain ⟨m, hm, -⟩ := (hg.fits t _ stage hin).owner
    rw [fresh] at hm
    cases hm
  · intro call hcall
    obtain ⟨m, hm, hshut⟩ := hg.shut call hcall
    refine ⟨m, ?_, hshut⟩
    have hne : call.msg ≠ msg := by
      rintro rfl
      rw [fresh] at hm
      cases hm
    exact (h.setMsg_msgs_of_ne hne _).trans hm

theorem requestTermination (hg : h.Good) {m : ActiveMsg} (alive : h.msgs msg = some m)
    (unlocked : m.mutex = none) :
    (h.setMsg msg { m with destroyed := true, flag := false }).Good := by
  refine ⟨hg.fits_of_untouched rfl ?_ (fun _ => id) rfl, hg.nodup,
    hg.shut_setMsg alive (fun _ => .inr rfl), hg.ready⟩
  intro t msg' stage hin
  refine h.setMsg_msgs_of_ne ?_ _
  rintro rfl
  exact hg.not_inside_of_unlocked alive unlocked hin

theorem destroy (hg : h.Good) (unused : ∀ phase ∈ h.threads, phase.msg ≠ some msg) :
    Good { h with
      active := h.active.filter (·.msg ≠ msg)
      queue := h.queue.filter (·.msg ≠ msg)
      msgs := Function.update h.msgs msg none } := by
  have hheld : (h.active.filter (·.msg ≠ msg)).toList ++ h.queue.filter (·.msg ≠ msg) =
      h.held.filter (·.msg ≠ msg) := by
    unfold held
    rw [List.filter_append]
    cases hactive : h.active with
    | none => rfl
    | some call => by_cases heq : call.msg = msg <;> simp [Option.filter, heq]
  refine ⟨hg.fits_of_untouched rfl ?_ ?_ rfl, ?_, ?_, ?_⟩
  · intro t msg' stage hin
    refine Function.update_of_ne ?_ _ _
    rintro rfl
    exact unused _ (List.mem_of_getElem? hin) rfl
  · intro call hcall
    unfold held at hcall
    rw [hheld] at hcall
    exact (List.mem_filter.mp hcall).1
  · unfold held
    rw [hheld]
    exact hg.nodup.sublist (List.filter_sublist.map _)
  · intro call hcall
    unfold held at hcall
    rw [hheld, List.mem_filter, decide_eq_true_iff] at hcall
    obtain ⟨m, hm, hshut⟩ := hg.shut call hcall.1
    exact ⟨m, (Function.update_of_ne hcall.2 _ _).trans hm, hshut⟩
  · intro hnone hne
    refine hg.ready hnone fun hnil => hne ?_
    dsimp only
    rw [hnil, List.filter_nil]

theorem erase (hg : h.Good) (newEnd : ℕ) : Good { h with queue := h.queue.take newEnd } := by
  have hheld : (h.active.toList ++ h.queue.take newEnd).Sublist h.held :=
    (List.take_sublist _ _).append_left _
  refine ⟨hg.fits_of_untouched rfl (fun _ _ _ _ => rfl) (fun call hcall => hheld.subset hcall) rfl,
    hg.nodup.sublist (hheld.map _), fun call hcall => hg.shut call (hheld.subset hcall), ?_⟩
  intro hnone hne
  refine hg.ready hnone fun hnil => hne ?_
  dsimp only
  rw [hnil, List.take_nil]

/-! ## The steps of the threads -/

theorem roam (hg : h.Good) {phase phase' : Phase} (thread : h.threads[t]? = some phase)
    (before : ∀ msg stage, phase ≠ .inside msg stage)
    (after : ∀ msg stage, phase' ≠ .inside msg stage) : (h.setPhase t phase').Good := by
  refine ⟨hg.fits_setPhase thread rfl ?_ ?_ ?_ ?_, hg.nodup, hg.shut,
    hg.ready_setPhase thread (fun msg => before msg _) rfl rfl rfl⟩
  · intro msg stage heq
    exact absurd heq (after msg stage)
  · exact fun _ _ _ _ _ => rfl
  · exact fun _ _ _ _ _ _ hcall => .inl hcall
  · exact fun _ _ => id

/-- The thread that passes the constructor of `ActiveCall` finds its message nowhere in the
queue. -/
theorem enter (hg : h.Good) {m : ActiveMsg} (thread : h.threads[t]? = some (.entering msg))
    (alive : h.msgs msg = some m) (unlocked : m.mutex = none) (down : m.flag = false)
    (kept : m.destroyed = false) :
    ((h.setMsg msg { m with mutex := some t }).setPhase t (.inside msg .constructed)).Good := by
  refine ⟨hg.fits_setStage thread rfl ?_ ?_ ?_ ?_, hg.nodup, hg.shut_setMsg alive id,
    hg.ready_setPhase thread (fun _ => nofun) rfl rfl rfl⟩
  · refine ⟨⟨_, h.setMsg_msgs_self _ _, rfl, by simp⟩, fun _ call hcall heq => ?_, nofun⟩
    obtain ⟨m', hm', hshut⟩ := hg.shut call hcall
    rw [heq, alive, Option.some.injEq] at hm'
    rw [← hm', down, kept] at hshut
    simp at hshut
  · intro t' msg' stage _ hin
    refine h.setMsg_msgs_of_ne ?_ _
    rintro rfl
    exact hg.not_inside_of_unlocked alive unlocked hin
  · exact fun _ _ _ _ _ _ hcall => .inl hcall
  · exact fun _ _ => id

theorem setFlag (hg : h.Good) {m : ActiveMsg} (thread : h.Inside t msg .constructed)
    (alive : h.msgs msg = some m) :
    ((h.setMsg msg { m with flag := true }).setPhase t (.inside msg .flagged)).Good := by
  have hf := hg.fits t msg _ thread
  refine ⟨hg.fits_setStage thread rfl ?_ ?_ ?_ ?_, hg.nodup,
    hg.shut_setMsg alive (fun _ => .inl rfl), hg.ready_setPhase thread (fun _ => nofun) rfl rfl rfl⟩
  · obtain ⟨m', hm', howner, -⟩ := hf.owner
    rw [alive, Option.some.injEq] at hm'
    rw [← hm'] at howner
    exact ⟨⟨_, h.setMsg_msgs_self _ _, howner, fun _ => rfl⟩, fun _ => hf.absent rfl, nofun⟩
  · intro t' msg' stage hne hin
    refine h.setMsg_msgs_of_ne ?_ _
    rintro rfl
    exact hne (hg.sole thread hin)
  · exact fun _ _ _ _ _ _ hcall => .inl hcall
  · exact fun _ _ => id

theorem lockLoop (hg : h.Good) (thread : h.Inside t msg .flagged) (unlocked : h.mutex = none) :
    ({ h with mutex := some t }.setPhase t (.inside msg .locked)).Good := by
  have hf := hg.fits t msg _ thread
  refine ⟨hg.fits_setStage thread rfl ?_ ?_ ?_ ?_, hg.nodup, hg.shut,
    hg.ready_setPhase thread (fun _ => nofun) rfl rfl rfl⟩
  · obtain ⟨m, hm, howner, hflag⟩ := hf.owner
    exact ⟨⟨m, hm, howner, fun _ => hflag (.inl rfl)⟩, fun _ => hf.absent rfl, fun _ => rfl⟩
  · exact fun _ _ _ _ _ => rfl
  · exact fun _ _ _ _ _ _ hcall => .inl hcall
  · intro t' _ hmutex
    rw [unlocked] at hmutex
    cases hmutex

/-- The message comes into the queue: it was not there, and its condition is true. -/
theorem pushBack (hg : h.Good) (thread : h.Inside t msg .locked) :
    ({ h with
      queue := h.queue ++ [Call.mk msg h.next]
      next := h.next + 1 }.setPhase t (.inside msg .pushed)).Good := by
  have hf := hg.fits t msg _ thread
  obtain ⟨m, hm, howner, hflag⟩ := hf.owner
  have hheld : h.active.toList ++ (h.queue ++ [Call.mk msg h.next]) =
      h.held ++ [Call.mk msg h.next] := (List.append_assoc _ _ _).symm
  have hmem : ∀ call ∈ h.active.toList ++ (h.queue ++ [Call.mk msg h.next]),
      call ∈ h.held ∨ call.msg = msg := by
    intro call hcall
    rw [hheld, List.mem_append, List.mem_singleton] at hcall
    exact hcall.imp_right (congrArg Call.msg)
  refine ⟨hg.fits_setStage thread rfl ?_ ?_ ?_ ?_, ?_, ?_, ?_⟩
  · exact ⟨⟨m, hm, howner, fun _ => hflag (.inr rfl)⟩, nofun, fun _ => hf.holder rfl⟩
  · exact fun _ _ _ _ _ => rfl
  · intro t' msg' stage hne hin call hcall
    refine (hmem call hcall).imp_right fun heq => ?_
    rw [heq]
    rintro rfl
    exact hne (hg.sole thread hin)
  · exact fun _ _ => id
  · change (List.map Call.msg (h.active.toList ++ (h.queue ++ [Call.mk msg h.next]))).Nodup
    rw [hheld, List.map_append, List.nodup_append]
    refine ⟨hg.nodup, List.nodup_singleton _, ?_⟩
    intro msg' hmsg' msg'' hmsg''
    obtain ⟨call, hcall, rfl⟩ := List.mem_map.mp hmsg'
    rw [List.map_cons, List.map_nil, List.mem_singleton] at hmsg''
    rw [hmsg'']
    exact hf.absent rfl call hcall
  · intro call hcall
    rcases hmem call hcall with hold | hnew
    · exact hg.shut call hold
    · rw [hnew]
      exact ⟨m, hm, .inl (hflag (.inr rfl))⟩
  · intro hnone
    have hpushed : (h.setPhase t (.inside msg .pushed)).Inside t msg .pushed := by
      rw [inside_setPhase thread, if_pos rfl]
    exact absurd hpushed (hnone t msg)

theorem signal (hg : h.Good) (thread : h.Inside t msg .pushed) :
    ({ h with flag := !h.queue.isEmpty }.setPhase t (.inside msg .signalled)).Good := by
  have hf := hg.fits t msg _ thread
  refine ⟨hg.fits_setStage thread rfl ?_ ?_ ?_ ?_, hg.nodup, hg.shut, ?_⟩
  · obtain ⟨m, hm, howner, -⟩ := hf.owner
    exact ⟨⟨m, hm, howner, nofun⟩, nofun, fun _ => hf.holder rfl⟩
  · exact fun _ _ _ _ _ => rfl
  · exact fun _ _ _ _ _ _ hcall => .inl hcall
  · exact fun _ _ => id
  · intro _ (hne : h.queue ≠ [])
    have hset : (!h.queue.isEmpty) = true := by simpa using hne
    exact hset

theorem unlockLoop (hg : h.Good) (thread : h.Inside t msg .signalled) :
    ({ h with mutex := none }.setPhase t (.inside msg .called)).Good := by
  have hf := hg.fits t msg _ thread
  refine ⟨hg.fits_setStage thread rfl ?_ ?_ ?_ ?_, hg.nodup, hg.shut,
    hg.ready_setPhase thread (fun _ => nofun) rfl rfl rfl⟩
  · obtain ⟨m, hm, howner, -⟩ := hf.owner
    exact ⟨⟨m, hm, howner, nofun⟩, nofun, nofun⟩
  · exact fun _ _ _ _ _ => rfl
  · exact fun _ _ _ _ _ _ hcall => .inl hcall
  · intro t' hne hmutex
    rw [hf.holder rfl, Option.some.injEq] at hmutex
    exact absurd hmutex.symm hne

theorem leave (hg : h.Good) {m : ActiveMsg} (thread : h.Inside t msg stage)
    (unlocked : stage.locksLoop = false) (alive : h.msgs msg = some m) :
    ((h.setMsg msg { m with mutex := none }).setPhase t .out).Good := by
  refine ⟨hg.fits_setPhase thread rfl (fun _ _ => nofun) ?_ ?_ ?_, hg.nodup,
    hg.shut_setMsg alive id, hg.ready_setPhase thread ?_ rfl rfl rfl⟩
  · intro t' msg' stage hne hin
    refine h.setMsg_msgs_of_ne ?_ _
    rintro rfl
    exact hne (hg.sole thread hin)
  · exact fun _ _ _ _ _ _ hcall => .inl hcall
  · exact fun _ _ => id
  · intro msg' heq
    rw [Phase.inside.injEq] at heq
    rw [heq.2] at unlocked
    cases unlocked

/-- **Every step keeps the hand-off good.** -/
theorem step {lost : List Call} (hg : h.Good) (hs : Step h lost h') : h'.Good := by
  cases hs with
  | idle => exact hg
  | pop inactive => exact hg.pop inactive
  | release popped alive unlocked => exact hg.release popped alive unlocked
  | construct fresh => exact hg.construct fresh
  | requestTermination alive unlocked => exact hg.requestTermination alive unlocked
  | destroy unused => exact hg.destroy unused
  | erase newEnd => exact hg.erase newEnd
  | roam thread before after => exact hg.roam thread before after
  | enter thread alive unlocked down kept => exact hg.enter thread alive unlocked down kept
  | setFlag thread alive => exact hg.setFlag thread alive
  | lockLoop thread unlocked => exact hg.lockLoop thread unlocked
  | pushBack thread => exact hg.pushBack thread
  | signal thread => exact hg.signal thread
  | unlockLoop thread => exact hg.unlockLoop thread
  | leave thread unlocked alive => exact hg.leave thread unlocked alive

end Good

end HandOff

end Messages

end Craplib
