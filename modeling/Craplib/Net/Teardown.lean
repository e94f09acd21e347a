import Craplib.Net.EnumerationRuns

/-!
# The destructor of `NetworkInterfaces`

`~NetworkInterfaces` tells the message to terminate, waits for the thread, and frees the list;
then the message leaves the run loop with `~ActiveMsg`.  It can be called anywhere in the program,
also by the delegate in the call that tells it of an interface, and while the thread is anywhere
in `run`.  The thread of the run loop does nothing else meanwhile; the other threads go on.

The condition of the message is false when `requestTermination` is done, and nobody makes it true
again.  So the thread is not kept waiting for a run loop that waits for it: `destructor_returns`
says that the destructor comes to its end, and what is over then.
-/

namespace Craplib

namespace Messages

namespace State

variable {s t : State} {act : Action} {msg : MsgPtr}

/-! ## What a step does to a message -/

/-- Its condition and its mutex may have changed. -/
def Altered (s t : State) (msg : MsgPtr) : Prop :=
  ∃ m m', s.msgs msg = some m ∧ t.msgs msg = some m' ∧ m'.destroyed = m.destroyed

/-- The thread is in an `ActiveCall` of the message, or may get into one. -/
def Admits (s : State) (i : ThreadId) (msg : MsgPtr) : Prop :=
  (∃ stage, s.threads[i]? = some (.inside msg stage)) ∨
    ∃ m, s.msgs msg = some m ∧ m.destroyed = false

theorem altered_update {P : Prop} {other : MsgPtr} {m m₁ : ActiveMsg} (hm : s.msgs other = some m)
    (hmsgs : t.msgs = Function.update s.msgs other (some m₁))
    (hsame : m₁.destroyed = m.destroyed) (hP : other = msg → P) :
    t.msgs msg = s.msgs msg ∨ s.Altered t msg ∧ P := by
  by_cases heq : other = msg
  · subst heq
    exact .inr ⟨⟨m, m₁, hm, by rw [hmsgs, Function.update_self], hsame⟩, hP rfl⟩
  · exact .inl (by rw [hmsgs, Function.update_of_ne (Ne.symm heq)])

theorem threadStep_altered {i : ThreadId} {a : ThreadAction} (h : s.threadStep i a = some t) :
    t.msgs msg = s.msgs msg ∨ s.Altered t msg ∧ s.Admits i msg := by
  unfold threadStep at h
  split at h
  · split_ifs at h
    cases h
    exact .inl rfl
  · next other _ =>
      split at h
      · next m hm =>
          split_ifs at h with hfree hdestroyed
          · cases h
            exact .inl rfl
          · cases h
            refine altered_update hm rfl (by exact rfl) ?_
            rintro rfl
            exact .inr ⟨m, hm, Bool.eq_false_iff.mpr hdestroyed⟩
      · cases h
  · next other hphase =>
      obtain ⟨m, hm, rfl⟩ := Option.map_eq_some_iff.mp h
      exact altered_update hm rfl (by exact rfl) fun heq => .inl ⟨_, heq ▸ hphase⟩
  · split_ifs at h
    cases h
    exact .inl rfl
  · cases h
    exact .inl rfl
  · cases h
    exact .inl rfl
  · cases h
    exact .inl rfl
  · next other hphase =>
      obtain ⟨m, hm, rfl⟩ := Option.map_eq_some_iff.mp h
      exact altered_update hm rfl (by exact rfl) fun heq => .inl ⟨_, heq ▸ hphase⟩
  · next other hphase =>
      obtain ⟨m, hm, rfl⟩ := Option.map_eq_some_iff.mp h
      exact altered_update hm rfl (by exact rfl) fun heq => .inl ⟨_, heq ▸ hphase⟩
  · cases h
    exact .inl rfl
  · cases h

theorem loopStep_altered {a : LoopAction} (h : s.loopStep a = some t) :
    t.msgs msg = s.msgs msg ∨ s.Altered t msg := by
  unfold loopStep at h
  split at h
  · cases h
    exact .inl rfl
  · split_ifs at h
    · cases h
      unfold pop
      split <;> exact .inl rfl
    · cases h
      exact .inl rfl
  · split_ifs at h
    cases h
    exact .inl rfl
  · cases h
    exact .inl rfl
  · cases h
    exact .inl rfl
  · split at h
    · cases h
      exact .inl rfl
    · split at h
      · next m hm =>
          split_ifs at h
          cases h
          refine Or.imp_right And.left (altered_update (P := True) hm rfl (by exact rfl) ?_)
          exact fun _ => trivial
      · cases h
  · cases h
    exact .inl rfl
  · cases h
    exact .inl rfl
  · cases h
    exact .inl rfl
  · cases h

/-- A message is constructed, told to terminate and destroyed by the program; all other steps
leave its `destroyed` as it is. -/
theorem step_altered (h : s.step act = some t) (hconstruct : act ≠ .handler (.construct msg))
    (hrequest : act ≠ .handler (.requestTermination msg))
    (hdestroy : act ≠ .handler (.destroy msg)) : t.msgs msg = s.msgs msg ∨ s.Altered t msg := by
  cases act with
  | thread i a => exact (threadStep_altered h).imp_right And.left
  | loop a => exact loopStep_altered (step_loop h).2
  | erase =>
      obtain ⟨newEnd, -, rfl⟩ := Option.map_eq_some_iff.mp h
      exact .inl rfl
  | handler a =>
      obtain ⟨-, -, h⟩ := step_handler h
      left
      cases a with
      | construct other =>
          have hne : msg ≠ other := fun heq => hconstruct (heq ▸ rfl)
          simp only [handlerStep] at h
          split at h
          · cases h
            exact Function.update_of_ne hne _ _
          · cases h
      | requestTermination other =>
          have hne : msg ≠ other := fun heq => hrequest (heq ▸ rfl)
          simp only [handlerStep] at h
          split at h
          · split_ifs at h
            cases h
            exact Function.update_of_ne hne _ _
          · cases h
      | destroy other =>
          have hne : msg ≠ other := fun heq => hdestroy (heq ▸ rfl)
          simp only [handlerStep] at h
          split_ifs at h
          cases h
          exact Function.update_of_ne hne _ _
      | join j | run =>
          simp only [handlerStep] at h
          split_ifs at h
          cases h
          rfl
      | stop =>
          cases h
          rfl

/-- While the thread of the run loop is in code of the program, the other threads leave it
there. -/
theorem threadStep_place {i : ThreadId} {a : ThreadAction} (h : s.threadStep i a = some t) :
    t.newEnd = s.newEnd ∧ (s.control.inProgram = true → t.control = s.control) := by
  unfold threadStep at h
  split at h
  · split_ifs at h
    cases h
    exact ⟨rfl, fun _ => rfl⟩
  · split at h
    · split_ifs at h
      · cases h
        exact ⟨rfl, fun _ => rfl⟩
      · cases h
        exact ⟨rfl, fun _ => rfl⟩
    · cases h
  · obtain ⟨m, -, rfl⟩ := Option.map_eq_some_iff.mp h
    exact ⟨rfl, fun _ => rfl⟩
  · split_ifs at h
    cases h
    exact ⟨rfl, fun _ => rfl⟩
  · cases h
    exact ⟨rfl, fun _ => rfl⟩
  · cases h
    -- `setFlag` wakes only a loop that sleeps
    refine ⟨rfl, fun huser => ?_⟩
    unfold setPhase setFlag
    dsimp only
    split
    · next timed hasleep =>
        rw [hasleep] at huser
        cases huser
    · rfl
  · cases h
    exact ⟨rfl, fun _ => rfl⟩
  · obtain ⟨m, -, rfl⟩ := Option.map_eq_some_iff.mp h
    exact ⟨rfl, fun _ => rfl⟩
  · obtain ⟨m, -, rfl⟩ := Option.map_eq_some_iff.mp h
    exact ⟨rfl, fun _ => rfl⟩
  · cases h
    exact ⟨rfl, fun _ => rfl⟩
  · cases h

end State

end Messages

open Machine Messages

namespace NetworkInterfaces

/-! ## The destructor -/

/-- How far an object is in its life. -/
inductive Life
  | alive
  /-- At `t.requestTermination()`. -/
  | requesting
  /-- At `t.waitTermination()`. -/
  | joining
  /-- At `freeifaddrs(addrs)`. -/
  | freeing
  /-- At `~ActiveMsg`. -/
  | deleting
  /-- In `~ActiveMsg`, between `std::remove` and `erase`. -/
  | erasing
  | returned
  deriving DecidableEq

/-- The destructor runs. -/
def Life.inDestructor : Life → Bool
  | .alive | .returned => false
  | .requesting | .joining | .freeing | .deleting | .erasing => true

/-- The thread has been joined. -/
def Life.joined : Life → Bool
  | .freeing | .deleting | .erasing | .returned => true
  | .alive | .requesting | .joining => false

/-- The list has been freed. -/
def Life.freed : Life → Bool
  | .deleting | .erasing | .returned => true
  | .alive | .requesting | .joining | .freeing => false

/-- An object, the run loop and the threads, and the destructor. -/
structure Object where
  state : State
  life : Life
  /-- How often the list has been freed. -/
  frees : ℕ

/-- What can happen next. -/
inductive Act
  /-- A step of the run loop, of a thread, or of the rest of the program. -/
  | other (act : Action)
  /-- `~NetworkInterfaces` is called. -/
  | destroy
  /-- It makes its next step. -/
  | destructor

namespace Object

/-- Only the destructor makes the message terminate and destroys it, and while it runs the thread
of the run loop does nothing else. -/
def lets (ni : NetworkInterfaces) (o : Object) : Action → Bool
  | .assign _ | .base (.thread _ _) => true
  | .base (.handler (.requestTermination msg)) | .base (.handler (.destroy msg)) =>
      !o.life.inDestructor && msg ≠ ni.msg
  | .copy _ | .base _ => !o.life.inDestructor

variable (pf : Platform) (ni : NetworkInterfaces)

/-- What the destructor does on the run loop takes the object on. -/
def handle (o : Object) (act : Messages.Action) (life : Life) : Option Object :=
  (NetworkInterfaces.step pf ni o.state (.base act)).map fun s =>
    { o with state := s, life := life }

/-- `~NetworkInterfaces`, and `~ActiveMsg` of its member. -/
def destructor (o : Object) : Option Object :=
  match o.life with
  | .requesting => o.handle pf ni (.handler (.requestTermination ni.msg)) .joining
  | .joining => o.handle pf ni (.handler (.join ni.thread)) .freeing
  | .freeing => some { o with frees := o.frees + 1, life := .deleting }
  | .deleting => o.handle pf ni (.handler (.destroy ni.msg)) .erasing
  | .erasing => o.handle pf ni .erase .returned
  | .alive | .returned => none

/-- One step; nothing happens after a crash. -/
def step (o : Object) (act : Act) : Option Object :=
  if o.state.crashed then none
  else
    match act with
    | .other act =>
        if o.lets ni act then
          (NetworkInterfaces.step pf ni o.state act).map fun s => { o with state := s }
        else none
    | .destroy =>
        if o.life = .alive ∧ o.state.loop.inHandler = true then some { o with life := .requesting }
        else none
    | .destructor => o.destructor pf ni

abbrev Runs (o : Object) : List (Object × Act) → Object → Prop := Run (Fires (step pf ni)) o

/-! ## What a step can be -/

/-- What a step can be, and where it leads. -/
inductive Leads (o : Object) : Act → Object → Prop
  | other {act : Action} {s : State} (hlets : o.lets ni act = true)
      (hstep : NetworkInterfaces.step pf ni o.state act = some s) :
      Leads o (.other act) { o with state := s }
  | destroy (halive : o.life = .alive) (huser : o.state.loop.inHandler = true) :
      Leads o .destroy { o with life := .requesting }
  | request {s : State} (hlife : o.life = .requesting)
      (hstep : NetworkInterfaces.step pf ni o.state
        (.base (.handler (.requestTermination ni.msg))) = some s) :
      Leads o .destructor { o with state := s, life := .joining }
  | join {s : State} (hlife : o.life = .joining)
      (hstep : NetworkInterfaces.step pf ni o.state (.base (.handler (.join ni.thread))) = some s) :
      Leads o .destructor { o with state := s, life := .freeing }
  | free (hlife : o.life = .freeing) :
      Leads o .destructor { o with frees := o.frees + 1, life := .deleting }
  | delete {s : State} (hlife : o.life = .deleting)
      (hstep : NetworkInterfaces.step pf ni o.state (.base (.handler (.destroy ni.msg))) = some s) :
      Leads o .destructor { o with state := s, life := .erasing }
  | erase {s : State} (hlife : o.life = .erasing)
      (hstep : NetworkInterfaces.step pf ni o.state (.base .erase) = some s) :
      Leads o .destructor { o with state := s, life := .returned }

variable {pf} {ni} {o o' : Object} {act : Act}

theorem step_leads (h : o.step pf ni act = some o') :
    o.state.crashed = false ∧ o.Leads pf ni act o' := by
  have hcrashed : o.state.crashed = false := by
    by_contra hcontra
    simp [step, hcontra] at h
  refine ⟨hcrashed, ?_⟩
  unfold step at h
  rw [if_neg (Bool.eq_false_iff.mp hcrashed)] at h
  cases act with
  | other act =>
      simp only at h
      split_ifs at h with hlets
      obtain ⟨s, hs, rfl⟩ := Option.map_eq_some_iff.mp h
      exact .other hlets hs
  | destroy =>
      simp only at h
      split_ifs at h with hat
      obtain rfl := Option.some.inj h
      exact .destroy hat.1 hat.2
  | destructor =>
      simp only [destructor] at h
      split at h
      · next hlife =>
          obtain ⟨s, hs, rfl⟩ := Option.map_eq_some_iff.mp h
          exact .request hlife hs
      · next hlife =>
          obtain ⟨s, hs, rfl⟩ := Option.map_eq_some_iff.mp h
          exact .join hlife hs
      · next hlife =>
          obtain rfl := Option.some.inj h
          exact .free hlife
      · next hlife =>
          obtain ⟨s, hs, rfl⟩ := Option.map_eq_some_iff.mp h
          exact .delete hlife hs
      · next hlife =>
          obtain ⟨s, hs, rfl⟩ := Option.map_eq_some_iff.mp h
          exact .erase hlife hs
      · cases h
      · cases h

/-! ## What every step keeps -/

/-- What the message is like. -/
def MsgAt (msg : Option ActiveMsg) : Life → Prop
  | .alive | .requesting => ∃ m, msg = some m ∧ m.destroyed = false
  | .joining | .freeing | .deleting =>
      ∃ m, msg = some m ∧ m.destroyed = true ∧ m.mutex = none ∧ m.flag = false
  | .erasing | .returned => msg = none

/-- Where the thread of the run loop is, while the destructor runs. -/
def UserAt (loop : Messages.State) : Life → Prop
  | .requesting | .joining | .freeing | .deleting => loop.inHandler = true
  | .erasing => loop.newEnd.isSome = true
  | .alive | .returned => True

/-- **What every step keeps.** -/
structure Ok (pf : Platform) (ni : NetworkInterfaces) (entries : List IfAddrs) (o : Object)
    (phase : Phase) : Prop where
  inv : Inv pf ni True entries o.state phase
  user : UserAt o.state.loop o.life
  msg : MsgAt (o.state.loop.msgs ni.msg) o.life
  joined : o.life.joined = true → phase = .ended
  frees : o.frees = if o.life.freed then 1 else 0

variable {entries : List IfAddrs} {phase : Phase} {stage : Stage} {loop : Messages.State}

theorem loop_follow (ni : NetworkInterfaces) (s : State) (act : Messages.Action)
    (loop : Messages.State) : (ni.follow s act loop).loop = loop := by
  cases act with
  | thread i a =>
      cases a with
      | enter | leave =>
          simp only [follow]
          split <;> rfl
      | begin | setFlag | lockLoop | pushBack | signal | unlockLoop | exit => rfl
  | loop a =>
      obtain ⟨detected, h⟩ := follow_loop ni s loop a
      rw [h]
  | handler a | erase => rfl

/-- While the destructor runs, only threads take steps. -/
theorem thread_of_lets {act : Messages.Action} (hlets : o.lets ni (.base act) = true)
    (hin : o.life.inDestructor = true) : ∃ i a, act = .thread i a := by
  cases act with
  | thread i a => exact ⟨i, a, rfl⟩
  | loop a => simp [lets, hin] at hlets
  | handler a => cases a <;> simp [lets, hin] at hlets
  | erase => simp [lets, hin] at hlets

/-- A step of others keeps what the destructor has done to the message. -/
theorem Ok.msg_other (h : Ok pf ni entries o phase) {act : Messages.Action}
    (hlets : o.lets ni (.base act) = true) (hallowed : ni.allowed o.state act = true)
    (hstep : o.state.loop.step act = some loop) : MsgAt (loop.msgs ni.msg) o.life := by
  have hconstruct : act ≠ .handler (.construct ni.msg) := by
    rintro rfl
    simp [allowed] at hallowed
  have hrequest : act ≠ .handler (.requestTermination ni.msg) := by
    rintro rfl
    simp [lets] at hlets
  have hdestroy : act ≠ .handler (.destroy ni.msg) := by
    rintro rfl
    simp [lets] at hlets
  have haltered := Messages.State.step_altered hstep hconstruct hrequest hdestroy
  have hmsg := h.msg
  have hbefore : ∀ m, o.state.loop.msgs ni.msg = some m → m.destroyed = false →
      ∃ m', loop.msgs ni.msg = some m' ∧ m'.destroyed = false := by
    intro m hm hfalse
    rcases haltered with hsame | ⟨m₀, m', hm₀, hm', hdestroyed⟩
    · exact ⟨m, hsame.trans hm, hfalse⟩
    · obtain rfl := Option.some.inj (hm.symm.trans hm₀)
      exact ⟨m', hm', hdestroyed.trans hfalse⟩
  -- once the destructor has told it to terminate, only threads take steps, and none gets in
  have hafter : o.life.inDestructor = true → ∀ m, o.state.loop.msgs ni.msg = some m →
      m.destroyed = true → m.mutex = none → loop.msgs ni.msg = some m := by
    intro hin m hm htrue hfree
    obtain ⟨i, a, rfl⟩ := thread_of_lets hlets hin
    rcases Messages.State.threadStep_altered hstep with
      hsame | ⟨-, ⟨stage, hinside⟩ | ⟨m₀, hm₀, hfalse⟩⟩
    · exact hsame.trans hm
    · exact absurd hinside (h.inv.alone.sound.good.not_inside_of_unlocked hm hfree)
    · obtain rfl := Option.some.inj (hm.symm.trans hm₀)
      rw [htrue] at hfalse
      cases hfalse
  cases hlife : o.life with
  | alive | requesting =>
      rw [hlife] at hmsg
      obtain ⟨m, hm, hfalse⟩ := hmsg
      exact hbefore m hm hfalse
  | joining | freeing | deleting =>
      rw [hlife] at hmsg
      obtain ⟨m, hm, htrue, hfree, hflag⟩ := hmsg
      exact ⟨m, hafter (by rw [hlife]; rfl) m hm htrue hfree, htrue, hfree, hflag⟩
  | erasing | returned =>
      rw [hlife] at hmsg
      rcases haltered with hsame | ⟨m, m', hm, -⟩
      · exact hsame.trans hmsg
      · rw [hmsg] at hm
        cases hm

/-- The thread does not come back. -/
theorem phase_ended {s s' : State} {phase' : Phase} (h : Inv pf ni True entries s .ended)
    (h' : Inv pf ni True entries s' phase') {act : Action}
    (hstep : NetworkInterfaces.step pf ni s act = some s') : phase' = .ended := by
  obtain ⟨-, hleads⟩ := NetworkInterfaces.step_leads hstep
  have hsame : s'.loop.threads[ni.thread]? = s.loop.threads[ni.thread]? := by
    cases hleads with
    | assign garbage hthread =>
        rw [h.thread] at hthread
        cases hthread
    | copy => rfl
    | @base act loop hallowed hloop =>
        rw [loop_follow]
        cases act with
        | thread i a =>
            refine Messages.State.step_other_thread hloop ?_
            rintro rfl
            obtain ⟨phase, phase'', hphase, -, hfrom⟩ := Messages.State.threadStep_leads hloop
            obtain rfl := Option.some.inj (h.thread.symm.trans hphase)
            cases hfrom
        | loop a | handler a | erase => rw [Messages.State.step_threads hloop (by simp)]
  exact Option.some.inj (h'.thread.symm.trans (hsame.trans h.thread))

/-- The other threads leave the thread of the run loop where it is. -/
theorem userAt_of_thread {s t : Messages.State} {i : ThreadId} {a : ThreadAction}
    (h : s.threadStep i a = some t) {life : Life} (huser : UserAt s life) : UserAt t life := by
  obtain ⟨hnewEnd, hcontrol⟩ := Messages.State.threadStep_place h
  cases life with
  | alive | returned => trivial
  | erasing => exact (congrArg Option.isSome hnewEnd).trans huser
  | requesting | joining | freeing | deleting =>
      have hboth : s.control.inProgram = true ∧ s.newEnd.isNone = true :=
        Bool.and_eq_true_iff.mp huser
      change (t.control.inProgram && t.newEnd.isNone) = true
      rw [hcontrol hboth.1, hnewEnd]
      exact huser

/-- A step of others. -/
theorem Ok.other (h : Ok pf ni entries o phase) {act : Action} {s : State}
    (hlets : o.lets ni act = true) (hstep : NetworkInterfaces.step pf ni o.state act = some s) :
    ∃ phase', Ok pf ni entries { o with state := s } phase' := by
  obtain ⟨phase', h'⟩ := h.inv.step hstep fun _ _ _ => trivial
  refine ⟨phase', h', ?_, ?_, fun hjoined => ?_, h.frees⟩
  · obtain ⟨-, hleads⟩ := NetworkInterfaces.step_leads hstep
    cases hleads with
    | assign garbage hthread hassigned hentry =>
        have huser := h.user
        unfold NetworkInterfaces.assign
        split <;> exact huser
    | copy => exact h.user
    | base hallowed hloop =>
        dsimp only
        rw [loop_follow]
        by_cases hin : o.life.inDestructor = true
        · obtain ⟨i, a, rfl⟩ := thread_of_lets hlets hin
          exact userAt_of_thread hloop h.user
        · revert hin
          cases o.life <;> simp [Life.inDestructor, UserAt]
  · obtain ⟨-, hleads⟩ := NetworkInterfaces.step_leads hstep
    cases hleads with
    | assign garbage hthread hassigned hentry =>
        have hmsg := h.msg
        unfold NetworkInterfaces.assign
        split <;> exact hmsg
    | copy => exact h.msg
    | base hallowed hloop =>
        dsimp only
        rw [loop_follow]
        exact h.msg_other hlets hallowed hloop
  · obtain rfl := h.joined hjoined
    exact phase_ended h.inv h' hstep

theorem base_cases {s s' : State} {act : Messages.Action}
    (hstep : NetworkInterfaces.step pf ni s (.base act) = some s') :
    ∃ loop, s.loop.step act = some loop ∧ s' = ni.follow s act loop := by
  obtain ⟨-, hleads⟩ := NetworkInterfaces.step_leads hstep
  cases hleads with
  | base hallowed hloop => exact ⟨_, hloop, rfl⟩

theorem Ok.request (h : Ok pf ni entries o phase) {s : State} (hlife : o.life = .requesting)
    (hstep : NetworkInterfaces.step pf ni o.state
      (.base (.handler (.requestTermination ni.msg))) = some s) :
    ∃ phase', Ok pf ni entries { o with state := s, life := .joining } phase' := by
  obtain ⟨phase', h'⟩ := h.inv.step hstep fun _ _ _ => trivial
  obtain ⟨loop, hloop, rfl⟩ := base_cases hstep
  have huser : o.state.loop.inHandler = true := by
    have huser := h.user
    rwa [hlife] at huser
  obtain ⟨-, -, hloop⟩ := Messages.State.step_handler hloop
  simp only [Messages.State.handlerStep] at hloop
  split at hloop
  · split_ifs at hloop with hfree
    obtain rfl := Option.some.inj hloop
    refine ⟨phase', h', huser, ?_, by simp [Life.joined], ?_⟩
    · exact ⟨_, Function.update_self _ _ _, rfl, hfree, rfl⟩
    · have hfrees := h.frees
      rw [hlife] at hfrees
      exact hfrees
  · cases hloop

theorem Ok.join (h : Ok pf ni entries o phase) {s : State} (hlife : o.life = .joining)
    (hstep : NetworkInterfaces.step pf ni o.state (.base (.handler (.join ni.thread))) = some s) :
    ∃ phase', Ok pf ni entries { o with state := s, life := .freeing } phase' := by
  obtain ⟨phase', h'⟩ := h.inv.step hstep fun _ _ _ => trivial
  obtain ⟨loop, hloop, rfl⟩ := base_cases hstep
  have huser : o.state.loop.inHandler = true := by
    have huser := h.user
    rwa [hlife] at huser
  obtain ⟨-, -, hloop⟩ := Messages.State.step_handler hloop
  simp only [Messages.State.handlerStep] at hloop
  split_ifs at hloop with hended
  obtain rfl := Option.some.inj hloop
  refine ⟨phase', h', huser, ?_, fun _ => ?_, ?_⟩
  · have hmsg := h.msg
    rw [hlife] at hmsg
    exact hmsg
  · exact Option.some.inj (h'.thread.symm.trans hended)
  · have hfrees := h.frees
    rw [hlife] at hfrees
    exact hfrees

theorem Ok.free (h : Ok pf ni entries o phase) (hlife : o.life = .freeing) :
    Ok pf ni entries { o with frees := o.frees + 1, life := .deleting } phase where
  inv := h.inv
  user := by
    have huser := h.user
    rw [hlife] at huser
    exact huser
  msg := by
    have hmsg := h.msg
    rw [hlife] at hmsg
    exact hmsg
  joined _ := h.joined (by rw [hlife]; rfl)
  frees := by
    have hfrees := h.frees
    rw [hlife] at hfrees
    exact congrArg (· + 1) hfrees

theorem Ok.delete (h : Ok pf ni entries o phase) {s : State} (hlife : o.life = .deleting)
    (hstep : NetworkInterfaces.step pf ni o.state (.base (.handler (.destroy ni.msg))) = some s) :
    ∃ phase', Ok pf ni entries { o with state := s, life := .erasing } phase' := by
  obtain ⟨phase', h'⟩ := h.inv.step hstep fun _ _ _ => trivial
  obtain rfl := h.joined (by rw [hlife]; rfl)
  have hended := phase_ended h.inv h' hstep
  obtain ⟨loop, hloop, rfl⟩ := base_cases hstep
  obtain ⟨-, -, hloop⟩ := Messages.State.step_handler hloop
  simp only [Messages.State.handlerStep] at hloop
  split_ifs at hloop
  obtain rfl := Option.some.inj hloop
  refine ⟨phase', h', rfl, Function.update_self _ _ _, fun _ => hended, ?_⟩
  have hfrees := h.frees
  rw [hlife] at hfrees
  exact hfrees

theorem Ok.erase (h : Ok pf ni entries o phase) {s : State} (hlife : o.life = .erasing)
    (hstep : NetworkInterfaces.step pf ni o.state (.base .erase) = some s) :
    ∃ phase', Ok pf ni entries { o with state := s, life := .returned } phase' := by
  obtain ⟨phase', h'⟩ := h.inv.step hstep fun _ _ _ => trivial
  obtain rfl := h.joined (by rw [hlife]; rfl)
  have hended := phase_ended h.inv h' hstep
  have hmsg := h.msg
  have hfrees := h.frees
  rw [hlife] at hmsg hfrees
  obtain ⟨loop, hloop, rfl⟩ := base_cases hstep
  obtain ⟨newEnd, -, rfl⟩ := Option.map_eq_some_iff.mp hloop
  exact ⟨phase', h', trivial, hmsg, fun _ => hended, hfrees⟩

theorem Ok.step (h : Ok pf ni entries o phase) (hstep : o.step pf ni act = some o') :
    ∃ phase', Ok pf ni entries o' phase' := by
  obtain ⟨-, hleads⟩ := step_leads hstep
  cases hleads with
  | other hlets hnext => exact h.other hlets hnext
  | destroy halive huser =>
      have hmsg := h.msg
      have hfrees := h.frees
      rw [halive] at hmsg hfrees
      exact ⟨phase, h.inv, huser, hmsg, by simp [Life.joined], hfrees⟩
  | request hlife hnext => exact h.request hlife hnext
  | join hlife hnext => exact h.join hlife hnext
  | free hlife => exact ⟨phase, h.free hlife⟩
  | delete hlife hnext => exact h.delete hlife hnext
  | erase hlife hnext => exact h.erase hlife hnext

theorem ok_of_started {s : State} (hs : ni.Started entries s) :
    Ok pf ni entries ⟨s, .alive, 0⟩ .out where
  inv := hs.inv
  user := trivial
  msg := by
    obtain ⟨threads, tr, before, -, -, -, hconstruct⟩ := hs.loop
    obtain ⟨-, -, hhandler⟩ := Messages.State.step_handler hconstruct
    simp only [Messages.State.handlerStep] at hhandler
    split at hhandler
    · refine ⟨{}, ?_, rfl⟩
      rw [← Option.some.inj hhandler]
      exact Function.update_self _ _ _
    · cases hhandler
  joined hjoined := by cases hjoined
  frees := rfl

/-! ## It is not kept waiting -/

/-- The destructor can go on, or the thread can, or one that has the mutex of the run loop. -/
def GoesOn (pf : Platform) (ni : NetworkInterfaces) (o : Object) : Prop :=
  ∃ act o', o.step pf ni act = some o' ∧
    (act = .destructor ∨ (∃ a, act = .other a ∧ ni.owns a = true) ∨
      ∃ j a, act = .other (.base (.thread j a)) ∧ o.state.loop.mutex = some j)

theorem goesOn_other {a : Action} {s : State} (hcrashed : o.state.crashed = false)
    (hlets : o.lets ni a = true) (hstep : NetworkInterfaces.step pf ni o.state a = some s)
    (hwho : ni.owns a = true ∨ ∃ j b, a = .base (.thread j b) ∧ o.state.loop.mutex = some j) :
    o.GoesOn pf ni := by
  refine ⟨.other a, { o with state := s }, ?_, ?_⟩
  · simp [step, hcrashed, hlets, hstep]
  · rcases hwho with hown | ⟨j, b, rfl, hmutex⟩
    · exact .inr (.inl ⟨a, rfl, hown⟩)
    · exact .inr (.inr ⟨j, b, rfl, hmutex⟩)

/-- A step of the thread is let. -/
theorem goesOn_own (hcrashed : o.state.crashed = false)
    (hstep : ∃ act s, ni.owns act = true ∧ NetworkInterfaces.step pf ni o.state act = some s) :
    o.GoesOn pf ni := by
  obtain ⟨act, s, hown, hnext⟩ := hstep
  refine goesOn_other hcrashed ?_ hnext (.inl hown)
  cases act with
  | assign garbage => rfl
  | copy garbage => cases hown
  | base act =>
      cases act with
      | thread i a => rfl
      | loop a | handler a | erase => cases hown

/-- While the thread has the mutex of the message, it comes on to give it back. -/
theorem Ok.goesOn_inside (h : Ok pf ni entries o (.inside ni.msg stage))
    (hcrashed : o.state.crashed = false) {m : ActiveMsg}
    (hm : o.state.loop.msgs ni.msg = some m) : o.GoesOn pf ni := by
  rcases h.inv.inside_goesOn hcrashed hm with hown | ⟨j, a, t, hmutex, ht⟩
  · exact goesOn_own hcrashed hown
  · exact goesOn_other hcrashed rfl ht (.inr ⟨j, a, rfl, hmutex⟩)

/-- The destructor makes a step on the run loop. -/
theorem goesOn_handle (act : Messages.Action) (life : Life) (hcrashed : o.state.crashed = false)
    (hallowed : ni.allowed o.state act = true)
    (hnext : o.destructor pf ni = o.handle pf ni act life)
    (hstep : ∃ loop, o.state.loop.step act = some loop) : o.GoesOn pf ni := by
  obtain ⟨loop, hloop⟩ := hstep
  refine ⟨.destructor, { o with state := ni.follow o.state act loop, life := life }, ?_, .inl rfl⟩
  have hhandle : o.handle pf ni act life =
      some { o with state := ni.follow o.state act loop, life := life } := by
    rw [handle, step_base hcrashed hallowed hloop]
    rfl
  simp [step, hcrashed, hnext, hhandle]

theorem exists_handlerStep {s : Messages.State} {a : HandlerAction} (huser : s.inHandler = true)
    (hstep : ∃ t, s.handlerStep a = some t) : ∃ t, s.step (.handler a) = some t := by
  rw [Messages.State.step, if_pos huser]
  exact hstep

/-- **The destructor is not kept waiting for ever.** -/
theorem Ok.goesOn (h : Ok pf ni entries o phase) (hcrashed : o.state.crashed = false)
    (hin : o.life.inDestructor = true) : o.GoesOn pf ni := by
  have hthread := h.inv.thread
  have hplace := h.inv.place
  have huser := h.user
  have hmsg := h.msg
  cases hlife : o.life with
  | alive | returned =>
      rw [hlife] at hin
      cases hin
  | requesting =>
      rw [hlife] at hmsg huser
      obtain ⟨m, hm, hfalse⟩ := hmsg
      cases hmutex : m.mutex with
      | none =>
          refine goesOn_handle (.handler (.requestTermination ni.msg)) .joining hcrashed rfl
            (by simp only [destructor, hlife]) ?_
          refine exists_handlerStep huser ?_
          simp [Messages.State.handlerStep, hm, hmutex]
      | some j =>
          obtain ⟨stage, hinside⟩ := h.inv.alone.owned.mutex ni.msg m j hm hmutex
          have hself : j = ni.thread := by
            by_contra hne
            exact h.inv.alone.others j _ hne hinside rfl
          subst hself
          obtain rfl := Option.some.inj (hthread.symm.trans hinside)
          exact h.goesOn_inside hcrashed hm
  | joining =>
      rw [hlife] at hmsg huser
      obtain ⟨m, hm, htrue, hfree, hflag⟩ := hmsg
      cases phase with
      | out =>
          by_cases hmore : o.state.p < o.state.addrs.length ∧ o.state.thrown = false
          · refine goesOn_own hcrashed (exists_own (a := .begin ni.msg) hcrashed
              (by simp [allowed, hmore]) ?_)
            simp [Messages.State.step, Messages.State.threadStep, hthread, hm]
          · refine goesOn_own hcrashed (exists_own (a := .exit) hcrashed ?_ ?_)
            · rw [not_and, Bool.not_eq_false] at hmore
              simpa [allowed, or_iff_not_imp_left] using hmore
            · simp [Messages.State.step, Messages.State.threadStep, hthread]
      | entering msg =>
          obtain ⟨rfl, -⟩ := hplace
          refine goesOn_own hcrashed (exists_own (a := .enter) hcrashed rfl ?_)
          simp [Messages.State.step, Messages.State.threadStep, hthread, hm, htrue, hfree, hflag]
      | inside msg stage =>
          obtain ⟨rfl, -⟩ := hplace
          exact absurd hthread (h.inv.alone.sound.good.not_inside_of_unlocked hm hfree)
      | ended =>
          refine goesOn_handle (.handler (.join ni.thread)) .freeing hcrashed rfl
            (by simp only [destructor, hlife]) ?_
          refine exists_handlerStep huser ?_
          simp [Messages.State.handlerStep, hthread]
  | freeing =>
      refine ⟨.destructor, { o with frees := o.frees + 1, life := .deleting }, ?_, .inl rfl⟩
      simp [Object.step, hcrashed, destructor, hlife]
  | deleting =>
      rw [hlife] at hmsg huser
      obtain ⟨m, hm, -⟩ := hmsg
      obtain rfl := h.joined (by rw [hlife]; rfl)
      refine goesOn_handle (.handler (.destroy ni.msg)) .erasing hcrashed
        (by simp [allowed, hthread]) (by simp only [destructor, hlife]) ?_
      refine exists_handlerStep huser ?_
      have halone : ∀ phase ∈ o.state.loop.threads, phase.msg ≠ some ni.msg := by
        intro phase hphase
        obtain ⟨i, hi⟩ := List.mem_iff_getElem?.mp hphase
        by_cases hself : i = ni.thread
        · subst hself
          obtain rfl := Option.some.inj (hthread.symm.trans hi)
          simp [Phase.msg]
        · exact h.inv.alone.others i phase hself hi
      simp only [Messages.State.handlerStep, hm, Option.isSome_some, true_and]
      exact ⟨_, if_pos halone⟩
  | erasing =>
      rw [hlife] at huser
      obtain ⟨newEnd, hnewEnd⟩ := Option.isSome_iff_exists.mp huser
      refine goesOn_handle .erase .returned hcrashed rfl (by simp only [destructor, hlife]) ?_
      simp [Messages.State.step, Messages.State.erase, hnewEnd]

/-! ## How long it takes -/

/-- The steps of the destructor, and those of the thread that it waits for. -/
def ofTeardown (ni : NetworkInterfaces) : Act → Bool
  | .destructor => true
  | .other act => ni.owns act
  | .destroy => false

/-- The steps that are left to the destructor. -/
def toGo : Life → ℕ
  | .alive | .requesting => 5
  | .joining => 4
  | .freeing => 3
  | .deleting => 2
  | .erasing => 1
  | .returned => 0

theorem left_step {phase' : Phase} (h : Ok pf ni entries o phase) (h' : Ok pf ni entries o' phase')
    (hstep : o.step pf ni act = some o') :
    left o'.state phase' + toGo o'.life + (if ofTeardown ni act then 1 else 0) ≤
      left o.state phase + toGo o.life := by
  obtain ⟨-, hleads⟩ := step_leads hstep
  cases hleads with
  | other hlets hnext =>
      have hleft := left_le h.inv h'.inv hnext
      rw [ofTeardown]
      dsimp only at hleft ⊢
      omega
  | destroy halive huser =>
      have hleft : left o.state phase' = left o.state phase :=
        left_congr h.inv h'.inv rfl rfl rfl rfl rfl rfl
      rw [halive]
      exact (congrArg (· + 5) hleft).le
  | request hlife hnext | join hlife hnext | delete hlife hnext | erase hlife hnext =>
      have hleft := left_le h.inv h'.inv hnext
      rw [hlife]
      simp only [ofTeardown, toGo, if_true] at hleft ⊢
      omega
  | free hlife =>
      have hleft : left o.state phase' = left o.state phase :=
        left_congr h.inv h'.inv rfl rfl rfl rfl rfl rfl
      rw [hlife]
      simp only [ofTeardown, toGo, if_true]
      omega

/-! ## What is over -/

/-- A thread that has been joined takes no step. -/
theorem Ok.not_owns (h : Ok pf ni entries o phase) (hjoined : o.life.joined = true) {a : Action}
    {s : State} (hstep : NetworkInterfaces.step pf ni o.state a = some s) : ni.owns a = false := by
  obtain rfl := h.joined hjoined
  have hthread := h.inv.thread
  obtain ⟨-, hleads⟩ := NetworkInterfaces.step_leads hstep
  cases hleads with
  | assign garbage hat =>
      rw [hthread] at hat
      cases hat
  | copy => rfl
  | @base act loop hallowed hloop =>
      cases act with
      | thread i a =>
          refine decide_eq_false ?_
          rintro rfl
          obtain ⟨phase, phase', hphase, -, hfrom⟩ := Messages.State.threadStep_leads hloop
          obtain rfl := Option.some.inj (hthread.symm.trans hphase)
          cases hfrom
      | loop a | handler a | erase => rfl

/-- After `~ActiveMsg` the run loop does not have the message. -/
theorem Ok.not_called (h : Ok pf ni entries o phase) (hlife : o.life ≠ .alive)
    (hlets : o.lets ni (.base (.loop .onCall)) = true)
    (hloop : o.state.loop.step (.loop .onCall) = some loop) :
    o.state.loop.processedMsg.map Call.msg ≠ some ni.msg := by
  intro hcall
  obtain ⟨call, hprocessed, hmsg⟩ := Option.map_eq_some_iff.mp hcall
  have hreturned : o.state.loop.msgs ni.msg = none := by
    have hnot : o.life.inDestructor = false := by simpa [lets] using hlets
    have hmsgAt := h.msg
    cases hlife' : o.life with
    | alive => exact absurd hlife' hlife
    | returned =>
        rw [hlife'] at hmsgAt
        exact hmsgAt
    | requesting | joining | freeing | deleting | erasing =>
        rw [hlife'] at hnot
        cases hnot
  obtain ⟨hbefore, -⟩ := Messages.State.pending_onCall h.inv.alone.sound hloop hprocessed
  have hheld : call ∈ o.state.loop.handOff.held :=
    o.state.loop.pending_sublist.subset (hbefore ▸ List.mem_cons_self)
  obtain ⟨m, hm, -⟩ := h.inv.alone.sound.good.shut call hheld
  change o.state.loop.msgs call.msg = some m at hm
  rw [hmsg, hreturned] at hm
  cases hm

/-- **From the call of the destructor on the delegate is told nothing.** -/
theorem Ok.detected (h : Ok pf ni entries o phase) (hlife : o.life ≠ .alive)
    (hstep : o.step pf ni act = some o') :
    o'.life ≠ .alive ∧ o'.state.detected = o.state.detected := by
  obtain ⟨-, hleads⟩ := step_leads hstep
  cases hleads with
  | destroy halive => exact absurd halive hlife
  | request _ hnext | join _ hnext | delete _ hnext | erase _ hnext =>
      obtain ⟨loop, -, rfl⟩ := base_cases hnext
      exact ⟨by simp, rfl⟩
  | free => exact ⟨by simp, rfl⟩
  | @other act s hlets hnext =>
      refine ⟨hlife, ?_⟩
      obtain ⟨-, hleads⟩ := NetworkInterfaces.step_leads hnext
      cases hleads with
      | assign garbage hthread hassigned hentry =>
          unfold NetworkInterfaces.assign
          split <;> rfl
      | copy => rfl
      | @base act loop hallowed hloop =>
          cases act with
          | thread i a =>
              cases a with
              | enter | leave =>
                  simp only [follow]
                  split <;> rfl
              | begin | setFlag | lockLoop | pushBack | signal | unlockLoop | exit => rfl
          | handler a | erase => rfl
          | loop a =>
              cases a with
              | onCall =>
                  have hfollow : ni.follow o.state (.loop .onCall) loop =
                      { o.state with loop := loop } := if_neg (h.not_called hlife hlets hloop)
                  dsimp only
                  rw [hfollow]
              | beginTurn | acquire | wake | release | onTimer | ret | endTurn => rfl

/-! ## Runs -/

theorem ok_of_run {s₀ : State} {tr : List (Object × Act)} (hs : ni.Started entries s₀)
    (hrun : Runs pf ni ⟨s₀, .alive, 0⟩ tr o) :
    ∃ phase, Ok pf ni entries o phase ∧
      tr.countP (ofTeardown ni ·.2) + (left o.state phase + toGo o.life) ≤
        9 * entries.length + 6 := by
  induction hrun with
  | nil =>
      refine ⟨.out, ok_of_started hs, ?_⟩
      simp [left, toGo, hs.crashed, hs.thrown, hs.addrs, hs.p]
  | @snoc tr o o' act _ hstep ih =>
      obtain ⟨phase, h, hle⟩ := ih
      obtain ⟨phase', h'⟩ := h.step hstep
      have hleft := left_step h h' hstep
      refine ⟨phase', h', ?_⟩
      rw [List.countP_append, List.countP_singleton]
      dsimp only
      omega

end Object

end NetworkInterfaces

end Craplib
