import Mathlib.Algebra.Group.Nat.Defs
import Mathlib.Logic.Function.Basic
import Craplib.Lib.Arena
import Craplib.Lib.Runs

/-!
# The message counts of the run loops

Every thread has a run loop of its own, and the loop counts the messages that are bound to
it: `RunLoop::run` ends when there are no timers and `msgCnt` is zero.  A message is bound to
the loop of the thread that constructs it, and enqueued there.  Its destructor goes through
`RunLoop::CurrentLoop`, the loop of the thread that destroys it.

A shared worker is constructed with the first object that refers to it and deleted with the
last, each on the thread of that object, and its message with it.

`counts_own_iff` says when every loop counts its own messages: exactly when every message is
destroyed on the thread it was constructed on, and no loop ever has 2^32 of them.
-/

namespace Craplib

namespace Counting

open Machine

/-- A thread, and the run loop that is its `CurrentLoop`. -/
abbrev ThreadId := ℕ

/-- `ActiveMsg *` -/
abbrev MsgPtr := ℕ

/-- The `T` of a `StaticRefCounted<T>`. -/
abbrev Kind := ℕ

/-! ## The loops and the messages -/

/-- What a `RunLoop` keeps of its messages. -/
structure RunLoop where
  queue : List MsgPtr := []
  processedMsg : Option MsgPtr := none
  msgCnt : UInt32 := 0

namespace RunLoop

def registerMsg (l : RunLoop) : RunLoop := { l with msgCnt := l.msgCnt + 1 }

def deregisterMsg (l : RunLoop) : RunLoop := { l with msgCnt := l.msgCnt - 1 }

def enqueue (l : RunLoop) (msg : MsgPtr) : RunLoop := { l with queue := l.queue ++ [msg] }

def dequeue (l : RunLoop) (msg : MsgPtr) : RunLoop where
  queue := l.queue.filter (· ≠ msg)
  processedMsg := l.processedMsg.filter (· ≠ msg)
  msgCnt := l.msgCnt

/-- What `run` does before it calls a message. -/
def take (l : RunLoop) : RunLoop :=
  { l with queue := l.queue.tail, processedMsg := l.queue.head? }

/-- The check in `run` that ends it. -/
def terminates (l : RunLoop) (timersEmpty : Bool) : Bool := timersEmpty && l.msgCnt == 0

end RunLoop

/-- An `ActiveMsg`. -/
structure ActiveMsg where
  /-- The loop it is bound to. -/
  rl : ThreadId
  /-- The shared worker that it is a part of. -/
  worker : Option Kind := none

/-- A `StaticRefCounted<T>`; the worker is known by its message. -/
structure StaticRefCounted where
  refCounter : ℕ := 0
  sta : Option MsgPtr := none

/-- The run loops of all threads, and the messages of the process. -/
structure State where
  /-- The live messages. -/
  msgs : Arena MsgPtr ActiveMsg := .empty
  loops : ThreadId → RunLoop := fun _ => {}
  statics : Kind → StaticRefCounted := fun _ => {}

/-- What can happen next. -/
inductive Action
  /-- A thread constructs a message. -/
  | construct (thread : ThreadId) (msg : MsgPtr)
  /-- A thread destroys a message. -/
  | destroy (thread : ThreadId) (msg : MsgPtr)
  /-- `StaticRefCounted()`; the message of a new worker is at this address. -/
  | addRef (thread : ThreadId) (kind : Kind) (msg : MsgPtr)
  /-- `StaticRefCounted(const StaticRefCounted & src)` -/
  | copyRef (kind : Kind)
  /-- `~StaticRefCounted()` -/
  | release (thread : ThreadId) (kind : Kind)
  /-- `ActiveMsg::call`, by whatever thread. -/
  | call (msg : MsgPtr)
  /-- The loop of a thread takes its next message. -/
  | take (thread : ThreadId)

namespace State

/-- No message yet. -/
def init : State := {}

def setLoop (s : State) (t : ThreadId) (l : RunLoop) : State :=
  { s with loops := Function.update s.loops t l }

def setStatic (s : State) (k : Kind) (st : StaticRefCounted) : State :=
  { s with statics := Function.update s.statics k st }

/-- `ActiveMsg::ActiveMsg` -/
def newMsg (s : State) (t : ThreadId) (msg : MsgPtr) (worker : Option Kind) : Option State := do
  let msgs ← s.msgs.construct msg { rl := t, worker := worker }
  some ({ s with msgs := msgs }.setLoop t (s.loops t).registerMsg)

/-- `ActiveMsg::~ActiveMsg`: both calls go to the loop of the thread that runs it. -/
def deleteMsg (s : State) (t : ThreadId) (msg : MsgPtr) : State :=
  { s with msgs := s.msgs.destroy msg }.setLoop t ((s.loops t).dequeue msg).deregisterMsg

/-- `StaticRefCounted()` -/
def addRef (s : State) (t : ThreadId) (k : Kind) (msg : MsgPtr) : Option State :=
  let st := { s.statics k with refCounter := (s.statics k).refCounter + 1 }
  if st.refCounter = 1 then
    (s.newMsg t msg (some k)).map fun s' => s'.setStatic k { st with sta := some msg }
  else some (s.setStatic k st)

/-- `~StaticRefCounted()` -/
def release (s : State) (t : ThreadId) (k : Kind) : Option State :=
  if (s.statics k).refCounter = 0 then none
  else
    let st := { s.statics k with refCounter := (s.statics k).refCounter - 1 }
    if st.refCounter = 0 then
      st.sta.map fun msg => (s.deleteMsg t msg).setStatic k { st with sta := none }
    else some (s.setStatic k st)

/-- One step of a thread. -/
def step (s : State) : Action → Option State
  | .construct t msg => s.newMsg t msg none
  | .destroy t msg => do
      let (_, m) ← s.msgs.object msg
      if m.worker = none then some (s.deleteMsg t msg) else none
  | .addRef t k msg => s.addRef t k msg
  | .copyRef k =>
      if (s.statics k).refCounter = 0 then none
      else some (s.setStatic k
        { s.statics k with refCounter := (s.statics k).refCounter + 1 })
  | .release t k => s.release t k
  | .call msg => do
      let (_, m) ← s.msgs.object msg
      some (s.setLoop m.rl ((s.loops m.rl).enqueue msg))
  | .take t => some (s.setLoop t (s.loops t).take)

/-- How many live messages are bound to a loop. -/
def bound (s : State) (l : ThreadId) : ℕ := s.msgs.count fun m => m.rl = l

/-- Every loop counts its own messages, and has none in its queue that is gone. -/
structure Counted (s : State) : Prop where
  count : ∀ l, (s.loops l).msgCnt.toNat = s.bound l
  queue : ∀ l, ∀ msg ∈ (s.loops l).queue, s.msgs.object msg ≠ none

/-- The message that an action destroys, and the thread that does it. -/
def destroyed (s : State) : Action → Option (ThreadId × MsgPtr)
  | .destroy t msg => some (t, msg)
  | .release t k =>
      if (s.statics k).refCounter - 1 = 0 then (s.statics k).sta.map fun msg => (t, msg)
      else none
  | _ => none

/-- The thread on which an action constructs a message. -/
def created (s : State) : Action → Option ThreadId
  | .construct t _ => some t
  | .addRef t k _ => if (s.statics k).refCounter + 1 = 1 then some t else none
  | _ => none

/-- A message is destroyed on the thread it is bound to. -/
def AtHome (s : State) (act : Action) : Prop :=
  ∀ t msg i m, s.destroyed act = some (t, msg) → s.msgs.object msg = some (i, m) → m.rl = t

/-- A message more on its loop is fewer than 2^32. -/
def Fits (s : State) (act : Action) : Prop :=
  ∀ t, s.created act = some t → s.bound t + 1 < 2 ^ 32

/-- The action decrements a count that is zero. -/
def Underflows (s : State) (act : Action) : Prop :=
  ∃ t msg, s.destroyed act = some (t, msg) ∧ (s.loops t).msgCnt = 0

end State

/-- Runs of the threads. -/
abbrev Runs (s : State) : List (State × Action) → State → Prop :=
  Run (Fires State.step) s

namespace State

variable {s u : State} {t l : ThreadId} {k : Kind} {msg : MsgPtr}

@[simp] theorem msgs_setLoop (s : State) (t : ThreadId) (l : RunLoop) :
    (s.setLoop t l).msgs = s.msgs := rfl

@[simp] theorem loops_setLoop (s : State) (t t' : ThreadId) (l : RunLoop) :
    (s.setLoop t l).loops t' = if t' = t then l else s.loops t' :=
  Function.update_apply _ _ _ _

@[simp] theorem msgs_setStatic (s : State) (k : Kind) (st : StaticRefCounted) :
    (s.setStatic k st).msgs = s.msgs := rfl

@[simp] theorem statics_setStatic (s : State) (k k' : Kind) (st : StaticRefCounted) :
    (s.setStatic k st).statics k' = if k' = k then st else s.statics k' :=
  Function.update_apply _ _ _ _

/-! ## What a step does -/

theorem newMsg_cases {w : Option Kind} (h : s.newMsg t msg w = some u) :
    ∃ msgs, s.msgs.construct msg ⟨t, w⟩ = some msgs ∧
      u = { s with msgs := msgs }.setLoop t (s.loops t).registerMsg := by
  obtain ⟨msgs, hmsgs, hu⟩ := Option.bind_eq_some_iff.mp h
  exact ⟨msgs, hmsgs, (Option.some.inj hu).symm⟩

theorem destroy_cases (h : s.step (.destroy t msg) = some u) :
    ∃ i m, s.msgs.object msg = some (i, m) ∧ m.worker = none ∧ u = s.deleteMsg t msg := by
  obtain ⟨⟨i, m⟩, hobject, hu⟩ := Option.bind_eq_some_iff.mp h
  dsimp only at hu
  split_ifs at hu with hworker
  exact ⟨i, m, hobject, hworker, (Option.some.inj hu).symm⟩

theorem addRef_cases (h : s.addRef t k msg = some u) :
    ((s.statics k).refCounter + 1 = 1 ∧ ∃ s', s.newMsg t msg (some k) = some s' ∧
        u = s'.setStatic k ⟨(s.statics k).refCounter + 1, some msg⟩) ∨
      (s.statics k).refCounter + 1 ≠ 1 ∧
        u = s.setStatic k ⟨(s.statics k).refCounter + 1, (s.statics k).sta⟩ := by
  unfold addRef at h
  dsimp only at h
  split_ifs at h with hfirst
  · obtain ⟨s', hs', hu⟩ := Option.map_eq_some_iff.mp h
    exact .inl ⟨hfirst, s', hs', hu.symm⟩
  · exact .inr ⟨hfirst, (Option.some.inj h).symm⟩

theorem release_cases (h : s.release t k = some u) :
    ((s.statics k).refCounter - 1 = 0 ∧ ∃ msg, (s.statics k).sta = some msg ∧
        u = (s.deleteMsg t msg).setStatic k ⟨(s.statics k).refCounter - 1, none⟩) ∨
      (s.statics k).refCounter - 1 ≠ 0 ∧
        u = s.setStatic k ⟨(s.statics k).refCounter - 1, (s.statics k).sta⟩ := by
  unfold release at h
  split_ifs at h with hnone
  dsimp only at h
  split_ifs at h with hlast
  · obtain ⟨msg, hmsg, hu⟩ := Option.map_eq_some_iff.mp h
    exact .inl ⟨hlast, msg, hmsg, hu.symm⟩
  · exact .inr ⟨hlast, (Option.some.inj h).symm⟩

/-- A message is destroyed by its own destructor call or with the last holder of a static. -/
theorem destroyed_cases {act : Action} (h : s.destroyed act = some (t, msg)) :
    act = .destroy t msg ∨ ∃ k, act = .release t k ∧ (s.statics k).refCounter - 1 = 0 ∧
      (s.statics k).sta = some msg := by
  cases act with
  | destroy t' msg' =>
      cases h
      exact .inl rfl
  | release t' k =>
      rw [destroyed] at h
      split_ifs at h with hlast
      obtain ⟨msg', hsta, heq⟩ := Option.map_eq_some_iff.mp h
      cases heq
      exact .inr ⟨k, rfl, hlast, hsta⟩
  | construct | addRef | copyRef | call | take => cases h

theorem copyRef_cases (h : s.step (.copyRef k) = some u) :
    u = s.setStatic k ⟨(s.statics k).refCounter + 1, (s.statics k).sta⟩ := by
  unfold step at h
  dsimp only at h
  split_ifs at h
  exact (Option.some.inj h).symm

theorem call_cases (h : s.step (.call msg) = some u) :
    ∃ i m, s.msgs.object msg = some (i, m) ∧
      u = s.setLoop m.rl ((s.loops m.rl).enqueue msg) := by
  obtain ⟨⟨i, m⟩, hobject, hu⟩ := Option.bind_eq_some_iff.mp h
  exact ⟨i, m, hobject, (Option.some.inj hu).symm⟩

/-! ## Counting at home -/

/-- What holds as long as every message dies on its own thread: the counts are exact, a
message is queued at its own loop, and the workers' messages are there. -/
structure Ok (s : State) : Prop where
  count : ∀ l, (s.loops l).msgCnt.toNat = s.bound l
  queue : ∀ l, ∀ msg ∈ (s.loops l).queue, ∃ i m, s.msgs.object msg = some (i, m) ∧ m.rl = l
  owned : ∀ k msg, (s.statics k).sta = some msg →
    ∃ i m, s.msgs.object msg = some (i, m) ∧ m.worker = some k

theorem Ok.init : State.init.Ok where
  count _ := rfl
  queue _ _ h := by cases h
  owned _ _ h := by cases h

theorem Ok.counted (h : s.Ok) : s.Counted where
  count := h.count
  queue l msg hmsg := by
    obtain ⟨i, m, hobject, -⟩ := h.queue l msg hmsg
    rw [hobject]
    exact Option.some_ne_none _

/-- A message more. -/
theorem bound_newMsg {w : Option Kind} (hu : s.newMsg t msg w = some u) (l : ThreadId) :
    u.bound l = s.bound l + if t = l then 1 else 0 := by
  obtain ⟨msgs, hmsgs, rfl⟩ := newMsg_cases hu
  simpa [bound] using Arena.count_of_construct hmsgs fun m => decide (m.rl = l)

/-- A message fewer. -/
theorem bound_deleteMsg {i : ℕ} {m : ActiveMsg} (hobject : s.msgs.object msg = some (i, m))
    (l : ThreadId) :
    (s.deleteMsg t msg).bound l + (if m.rl = l then 1 else 0) = s.bound l := by
  simpa [bound, deleteMsg] using Arena.count_destroy hobject fun m => decide (m.rl = l)

theorem object_newMsg {w : Option Kind} (hu : s.newMsg t msg w = some u) (other : MsgPtr) :
    u.msgs.object other =
      if other = msg then some (s.msgs.born, ⟨t, w⟩) else s.msgs.object other := by
  obtain ⟨msgs, hmsgs, rfl⟩ := newMsg_cases hu
  exact Arena.object_of_construct hmsgs other

theorem loops_newMsg {w : Option Kind} (hu : s.newMsg t msg w = some u) (l : ThreadId) :
    u.loops l = if l = t then (s.loops t).registerMsg else s.loops l := by
  obtain ⟨msgs, -, rfl⟩ := newMsg_cases hu
  exact loops_setLoop _ _ _ _

theorem statics_newMsg {w : Option Kind} (hu : s.newMsg t msg w = some u) :
    u.statics = s.statics := by
  obtain ⟨msgs, -, rfl⟩ := newMsg_cases hu
  rfl

theorem object_deleteMsg (s : State) (t : ThreadId) (msg other : MsgPtr) :
    (s.deleteMsg t msg).msgs.object other =
      if other = msg then none else s.msgs.object other :=
  Arena.object_destroy _ _ _

theorem loops_deleteMsg (s : State) (t : ThreadId) (msg : MsgPtr) (l : ThreadId) :
    (s.deleteMsg t msg).loops l =
      if l = t then ((s.loops t).dequeue msg).deregisterMsg else s.loops l :=
  loops_setLoop _ _ _ _

/-- A message that is live stays live when another one is constructed. -/
theorem object_newMsg_of_live {w : Option Kind} (hu : s.newMsg t msg w = some u)
    {other : MsgPtr} {o : ℕ × ActiveMsg} (ho : s.msgs.object other = some o) :
    u.msgs.object other = some o := by
  have hfree : s.msgs.object msg = none := by
    obtain ⟨msgs, hmsgs, -⟩ := newMsg_cases hu
    exact Arena.free_of_construct hmsgs
  rw [object_newMsg hu, if_neg, ho]
  rintro rfl
  rw [hfree] at ho
  cases ho

theorem Ok.newMsg {w : Option Kind} (h : s.Ok) (hfits : s.bound t + 1 < 2 ^ 32)
    (hu : s.newMsg t msg w = some u) : u.Ok where
  count l := by
    rw [bound_newMsg hu, loops_newMsg hu]
    by_cases hl : l = t
    · subst hl
      have hcount := h.count l
      rw [if_pos rfl, if_pos rfl, RunLoop.registerMsg, UInt32.toNat_add, hcount]
      exact Nat.mod_eq_of_lt hfits
    · rw [if_neg hl, if_neg (Ne.symm hl), h.count l, Nat.add_zero]
  queue l other hother := by
    have hold : other ∈ (s.loops l).queue := by
      rw [loops_newMsg hu] at hother
      split at hother
      · next hl =>
          rw [hl]
          exact hother
      · exact hother
    obtain ⟨i, m, hobject, hrl⟩ := h.queue l other hold
    exact ⟨i, m, object_newMsg_of_live hu hobject, hrl⟩
  owned k other hother := by
    rw [statics_newMsg hu] at hother
    obtain ⟨i, m, hobject, hworker⟩ := h.owned k other hother
    exact ⟨i, m, object_newMsg_of_live hu hobject, hworker⟩

/-- The destructor of a message that no shared worker has any more. -/
theorem Ok.deleteMsg {i : ℕ} {m : ActiveMsg} (h : s.Ok)
    (hobject : s.msgs.object msg = some (i, m)) (hhome : m.rl = t)
    (hfree : ∀ k, (s.statics k).sta ≠ some msg) : (s.deleteMsg t msg).Ok where
  count l := by
    have hbound := bound_deleteMsg (t := t) hobject l
    have hcount := h.count l
    rw [loops_deleteMsg]
    by_cases hl : l = t
    · subst hl
      rw [if_pos hhome] at hbound
      rw [if_pos rfl, RunLoop.deregisterMsg, RunLoop.dequeue, UInt32.toNat_sub, hcount]
      have hlt : s.bound l < 2 ^ 32 := hcount ▸ (s.loops l).msgCnt.toNat_lt
      have hone : (1 : UInt32).toNat = 1 := rfl
      omega
    · rw [if_neg (fun heq => hl (heq.symm.trans hhome))] at hbound
      rw [if_neg hl, hcount]
      omega
  queue l other hother := by
    have hold : other ∈ (s.loops l).queue ∧ other ≠ msg := by
      rw [loops_deleteMsg] at hother
      split at hother
      · next hl =>
          rw [hl]
          simpa [RunLoop.deregisterMsg, RunLoop.dequeue] using hother
      · next hl =>
          refine ⟨hother, ?_⟩
          -- the message was bound to another loop, so it is not in this queue
          rintro rfl
          obtain ⟨i', m', hobject', hrl⟩ := h.queue l other hother
          rw [hobject] at hobject'
          cases hobject'
          exact hl (hrl.symm.trans hhome)
    obtain ⟨i', m', hobject', hrl⟩ := h.queue l other hold.1
    exact ⟨i', m', by rw [object_deleteMsg, if_neg hold.2, hobject'], hrl⟩
  owned k other hother := by
    obtain ⟨i', m', hobject', hworker⟩ := h.owned k other hother
    refine ⟨i', m', ?_, hworker⟩
    rw [object_deleteMsg, if_neg, hobject']
    rintro rfl
    exact hfree k hother

/-- A loop that counts as before gets another queue. -/
theorem Ok.setLoop (h : s.Ok) {t : ThreadId} {l : RunLoop} (hcnt : l.msgCnt = (s.loops t).msgCnt)
    (hqueue : ∀ msg ∈ l.queue, ∃ i m, s.msgs.object msg = some (i, m) ∧ m.rl = t) :
    (s.setLoop t l).Ok where
  count t' := by
    rw [loops_setLoop]
    split
    · next ht =>
        rw [ht, hcnt]
        exact h.count t
    · exact h.count t'
  queue t' msg hmsg := by
    rw [loops_setLoop] at hmsg
    split at hmsg
    · next ht =>
        rw [ht]
        exact hqueue msg hmsg
    · exact h.queue t' msg hmsg
  owned := h.owned

/-- A reference is counted, or no longer, and the worker stays. -/
theorem Ok.setCounter (h : s.Ok) (k : Kind) (n : ℕ) :
    (s.setStatic k ⟨n, (s.statics k).sta⟩).Ok where
  count := h.count
  queue := h.queue
  owned k' msg hmsg := by
    rw [statics_setStatic] at hmsg
    split at hmsg
    · next hk => exact h.owned k' msg (hk ▸ hmsg)
    · exact h.owned k' msg hmsg

/-- The worker goes, and leaves its message. -/
theorem Ok.forget (h : s.Ok) (k : Kind) (n : ℕ) : (s.setStatic k ⟨n, none⟩).Ok where
  count := h.count
  queue := h.queue
  owned k' msg hmsg := by
    rw [statics_setStatic] at hmsg
    split at hmsg
    · cases hmsg
    · exact h.owned k' msg hmsg

/-- **One step.**  A step on the right thread, and below the limit of the counter, keeps the
counts. -/
theorem Ok.step {act : Action} (h : s.Ok) (hstep : s.step act = some u) (hhome : s.AtHome act)
    (hfits : s.Fits act) : u.Ok := by
  cases act with
  | construct t msg => exact h.newMsg (hfits t rfl) hstep
  | destroy t msg =>
      obtain ⟨i, m, hobject, hworker, rfl⟩ := destroy_cases hstep
      refine h.deleteMsg hobject (hhome t msg i m rfl hobject) fun k hk => ?_
      obtain ⟨i', m', hobject', hworker'⟩ := h.owned k msg hk
      rw [hobject] at hobject'
      cases hobject'
      rw [hworker] at hworker'
      cases hworker'
  | addRef t k msg =>
      rcases addRef_cases hstep with ⟨hfirst, s', hs', rfl⟩ | ⟨-, rfl⟩
      · have hnew := h.newMsg (hfits t (if_pos hfirst)) hs'
        refine ⟨hnew.count, hnew.queue, fun k' msg' hmsg' => ?_⟩
        rw [statics_setStatic] at hmsg'
        split at hmsg'
        · next hk =>
            obtain rfl := Option.some.inj hmsg'
            refine ⟨s.msgs.born, ⟨t, some k⟩, ?_, by rw [hk]⟩
            rw [msgs_setStatic, object_newMsg hs', if_pos rfl]
        · exact hnew.owned k' msg' hmsg'
      · exact h.setCounter k _
  | copyRef k =>
      obtain rfl := copyRef_cases hstep
      exact h.setCounter k _
  | release t k =>
      rcases release_cases hstep with ⟨hlast, msg, hsta, rfl⟩ | ⟨-, rfl⟩
      · obtain ⟨i, m, hobject, hworker⟩ := h.owned k msg hsta
        have hrl : m.rl = t := by
          refine hhome t msg i m ?_ hobject
          rw [destroyed, if_pos hlast, hsta, Option.map_some]
        refine (h.forget k _).deleteMsg hobject hrl fun k' hk' => ?_
        rw [statics_setStatic] at hk'
        split at hk'
        · cases hk'
        · next hother =>
            obtain ⟨i', m', hobject', hworker'⟩ := h.owned k' msg hk'
            rw [hobject] at hobject'
            cases hobject'
            exact hother (Option.some.inj (hworker'.symm.trans hworker))
      · exact h.setCounter k _
  | call msg =>
      obtain ⟨i, m, hobject, rfl⟩ := call_cases hstep
      refine h.setLoop rfl fun other hother => ?_
      rcases List.mem_append.mp hother with hold | hnew
      · exact h.queue m.rl other hold
      · obtain rfl := List.mem_singleton.mp hnew
        exact ⟨i, m, hobject, rfl⟩
  | take t =>
      obtain rfl : s.setLoop t (s.loops t).take = u := Option.some.inj hstep
      exact h.setLoop rfl fun other hother => h.queue t other (List.mem_of_mem_tail hother)

/-! ## Steps that lose count -/

/-- The counter goes round at 2^32. -/
theorem not_counted_newMsg {w : Option Kind} (hfull : 2 ^ 32 ≤ s.bound t + 1)
    (hu : s.newMsg t msg w = some u) : ¬ u.Counted := by
  intro hcounted
  have hcount := hcounted.count t
  have hlt := (u.loops t).msgCnt.toNat_lt
  rw [hcount, bound_newMsg hu, if_pos rfl] at hlt
  omega

/-- A destructor on another thread counts that thread's loop down. -/
theorem not_counted_deleteMsg {i : ℕ} {m : ActiveMsg} (h : s.Ok)
    (hobject : s.msgs.object msg = some (i, m)) (haway : m.rl ≠ t) :
    ¬ (s.deleteMsg t msg).Counted := by
  intro hcounted
  have hcount := hcounted.count t
  have hbound := bound_deleteMsg (t := t) hobject t
  rw [if_neg haway, Nat.add_zero] at hbound
  rw [hbound, ← h.count t, loops_deleteMsg, if_pos rfl, RunLoop.deregisterMsg, RunLoop.dequeue,
    UInt32.toNat_sub] at hcount
  dsimp only at hcount
  have hlt := (s.loops t).msgCnt.toNat_lt
  have hone : (1 : UInt32).toNat = 1 := rfl
  omega

theorem not_counted_of_away {act : Action} (h : s.Ok) (hstep : s.step act = some u)
    (haway : ¬ s.AtHome act) : ¬ u.Counted := by
  unfold AtHome at haway
  push Not at haway
  obtain ⟨t, msg, i, m, hdestroyed, hobject, hrl⟩ := haway
  rcases destroyed_cases hdestroyed with rfl | ⟨k, rfl, hlast, hsta⟩
  · obtain ⟨-, -, -, -, rfl⟩ := destroy_cases hstep
    exact not_counted_deleteMsg h hobject hrl
  · rcases release_cases hstep with ⟨-, msg', hsta', rfl⟩ | ⟨hmore, -⟩
    · obtain rfl := Option.some.inj (hsta.symm.trans hsta')
      exact not_counted_deleteMsg (h.forget k _) hobject hrl
    · exact absurd hlast hmore

theorem not_counted_of_full {act : Action} (hstep : s.step act = some u) (hfull : ¬ s.Fits act) :
    ¬ u.Counted := by
  unfold Fits at hfull
  push Not at hfull
  obtain ⟨t, hcreated, hle⟩ := hfull
  cases act with
  | construct t' msg =>
      obtain rfl : t' = t := Option.some.inj hcreated
      exact not_counted_newMsg hle hstep
  | addRef t' k msg =>
      rcases addRef_cases hstep with ⟨hfirst, s', hs', rfl⟩ | ⟨hmore, -⟩
      · rw [created, if_pos hfirst] at hcreated
        obtain rfl : t' = t := Option.some.inj hcreated
        exact fun hcounted => not_counted_newMsg hle hs' ⟨hcounted.count, hcounted.queue⟩
      · rw [created, if_neg hmore] at hcreated
        cases hcreated
  | destroy t' msg => cases hcreated
  | copyRef k => cases hcreated
  | release t' k => cases hcreated
  | call msg => cases hcreated
  | take t' => cases hcreated

/-- What is destroyed has been there. -/
theorem Ok.live_of_destroyed {act : Action} (h : s.Ok) (hstep : s.step act = some u)
    (hdestroyed : s.destroyed act = some (t, msg)) : ∃ i m, s.msgs.object msg = some (i, m) := by
  rcases destroyed_cases hdestroyed with rfl | ⟨k, rfl, -, hsta⟩
  · obtain ⟨i, m, hobject, -, -⟩ := destroy_cases hstep
    exact ⟨i, m, hobject⟩
  · obtain ⟨i, m, hobject, -⟩ := h.owned k msg hsta
    exact ⟨i, m, hobject⟩

/-- A message that dies on its own thread has been counted there. -/
theorem Ok.not_underflows {act : Action} (h : s.Ok) (hstep : s.step act = some u)
    (hhome : s.AtHome act) : ¬ s.Underflows act := by
  rintro ⟨t, msg, hdestroyed, hzero⟩
  obtain ⟨i, m, hobject⟩ := h.live_of_destroyed hstep hdestroyed
  have hrl := hhome t msg i m hdestroyed hobject
  have hcount := h.count t
  rw [hzero] at hcount
  have hnone := Arena.count_eq_zero.mp hcount.symm msg i m hobject
  simp [hrl] at hnone

/-! ## The counts of a run -/

/-- **When every loop counts its own messages.**  In every run, every loop's count is the
number of live messages bound to it, no count wraps below zero and no queue has a message
that is gone, exactly when every message is destroyed on the thread that constructed it and
fewer than 2^32 messages of a loop live at a time. -/
theorem counts_own_iff {tr : List (State × Action)} (hrun : Runs .init tr s) :
    ((∀ x ∈ visited tr s, x.Counted) ∧ ∀ p ∈ tr, ¬ p.1.Underflows p.2) ↔
      ∀ p ∈ tr, p.1.AtHome p.2 ∧ p.1.Fits p.2 := by
  have hkeep : ∀ (x : State) act y, x.Ok → Fires State.step x act y →
      x.AtHome act ∧ x.Fits act → y.Ok :=
    fun x act y h hstep hgood => h.step hstep hgood.1 hgood.2
  have hblame : (∀ x ∈ visited tr s, x.Counted) ↔ ∀ p ∈ tr, p.1.AtHome p.2 ∧ p.1.Fits p.2 := by
    refine Run.visited_iff_good hkeep (fun x act y h hstep hbad => ?_) (fun x h => h.counted) hrun
      Ok.init
    by_cases hhome : x.AtHome act
    · exact not_counted_of_full hstep fun hfits => hbad ⟨hhome, hfits⟩
    · exact not_counted_of_away h hstep hhome
  constructor
  · exact fun h => hblame.mp h.1
  · intro hgood
    refine ⟨hblame.mpr hgood, fun p hp => ?_⟩
    have hok : ∀ x ∈ visited tr s, x.Ok := hrun.invariant_steps hkeep Ok.init hgood
    obtain ⟨pre, post, y, -, -, hstep, -⟩ := hrun.of_mem hp
    exact (hok p.1 (mem_visited.mpr (.inl ⟨p, hp, rfl⟩))).not_underflows hstep (hgood p hp).1

/-- As long as the counts are right, the check that ends `run` sees whether there is a
message that could still be called there. -/
theorem terminates_iff (h : s.Counted) (l : ThreadId) :
    (s.loops l).terminates true = true ↔
      ∀ msg i m, s.msgs.object msg = some (i, m) → m.rl ≠ l := by
  have hzero : (s.loops l).terminates true = true ↔ s.bound l = 0 := by
    rw [← h.count l, RunLoop.terminates, Bool.true_and, beq_iff_eq, ← UInt32.toNat_inj]
    rfl
  rw [hzero, bound, Arena.count_eq_zero]
  simp

/-- A socket worker is called, and goes on the thread it came on. -/
theorem counts_own_iff_example :
    ∃ tr s, Runs .init tr s ∧ actions tr = [.addRef 0 0 1, .call 1, .release 0 0] ∧
      (∀ x ∈ visited tr s, x.Counted) ∧ ∀ p ∈ tr, ¬ p.1.Underflows p.2 := by
  let s₁ := (State.init.step (.addRef 0 0 1)).get (by decide)
  have h₁ : State.init.step (.addRef 0 0 1) = some s₁ := (Option.some_get _).symm
  let s₂ := (s₁.step (.call 1)).get (by decide)
  have h₂ : s₁.step (.call 1) = some s₂ := (Option.some_get _).symm
  let s₃ := (s₂.step (.release 0 0)).get (by decide)
  have h₃ : s₂.step (.release 0 0) = some s₃ := (Option.some_get _).symm
  have hrun : Runs .init [(.init, .addRef 0 0 1), (s₁, .call 1), (s₂, .release 0 0)] s₃ :=
    ((Run.single h₁).snoc h₂).snoc h₃
  refine ⟨_, s₃, hrun, rfl, (counts_own_iff hrun).mpr fun p hp => ?_⟩
  simp only [List.mem_cons, List.not_mem_nil, or_false] at hp
  rcases hp with rfl | rfl | rfl
  · refine ⟨fun t msg i m hdestroyed => (by cases hdestroyed), fun t ht => ?_⟩
    obtain rfl : 0 = t := Option.some.inj ht
    decide
  · exact ⟨fun t msg i m hdestroyed => (by cases hdestroyed), fun t ht => by cases ht⟩
  · refine ⟨fun t msg i m hdestroyed hobject => ?_, fun t ht => by cases ht⟩
    obtain ⟨rfl, rfl⟩ := Prod.mk.inj (Option.some.inj hdestroyed)
    have hmsg : s₂.msgs.object 1 = some (0, ⟨0, some 0⟩) := rfl
    rw [hmsg] at hobject
    cases hobject
    rfl

/-- Thread 0 has the first socket and thread 1 the last. -/
def drift : List Action :=
  [.addRef 0 0 1, .addRef 1 0 2, .call 1, .release 0 0, .release 1 0]

/-- **The counts drift.**  The worker's message is counted for ever where it was
constructed, the count of the thread that destroys it wraps, and the message stays in the
queue of its loop. -/
theorem worker_changes_threads :
    ∃ tr s, Runs .init tr s ∧ actions tr = drift ∧ s.bound 0 = 0 ∧ (s.loops 0).msgCnt = 1 ∧
      s.bound 1 = 0 ∧ (s.loops 1).msgCnt = 4294967295 ∧ (s.loops 0).queue = [1] ∧
      s.msgs.object 1 = none ∧ ¬ s.Counted := by
  let s := (exec step .init drift).get (by decide)
  have hs : exec step .init drift = some s := (Option.some_get _).symm
  obtain ⟨hrun, hacts⟩ := exec_trace _ _ _ _ hs
  have hbound : s.bound 0 = 0 := by decide
  have hcnt : (s.loops 0).msgCnt = 1 := by decide
  refine ⟨_, s, hrun, hacts, hbound, hcnt, by decide, by decide, by decide, rfl, ?_⟩
  intro hcounted
  have hcount := hcounted.count 0
  rw [hbound, hcnt] at hcount
  cases hcount

end State

end Counting

end Craplib
