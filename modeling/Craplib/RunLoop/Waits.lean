import Craplib.RunLoop.MessageRuns

/-!
# What an `ActiveCall` waits for

`Good` says what a thread that is in an `ActiveCall` may rely on.  Here is the converse:
whoever is kept waiting is kept waiting by somebody.  A mutex is held by a thread that is
where the code holds it, and the condition of a message is true only while a thread is about
to put it into the queue or the loop has it (`Owned`).  So a thread that cannot pass the
constructor of `ActiveCall` waits for another thread in there, or for the loop to release the
message; unless a call of the message was lost in `RunLoop::dequeue`, and then its condition stays
true.
-/

namespace Craplib

namespace Messages

open Machine

namespace HandOff

/-- The loop has the message, or a thread is about to put it into the queue. -/
def Raised (h : HandOff) (msg : MsgPtr) : Prop :=
  (∃ call ∈ h.held, call.msg = msg) ∨ ∃ t, h.Inside t msg .flagged ∨ h.Inside t msg .locked

/-- **No mutex is held, and no condition is true, for nothing**, except those of messages whose
calls were lost. -/
structure Owned (h : HandOff) (lost : MsgPtr → Prop) : Prop where
  loop : ∀ t, h.mutex = some t → ∃ msg stage, h.Inside t msg stage ∧ stage.locksLoop = true
  mutex : ∀ msg m t, h.msgs msg = some m → m.mutex = some t → ∃ stage, h.Inside t msg stage
  flag : ∀ msg m, h.msgs msg = some m → m.flag = true → h.Raised msg ∨ lost msg

variable {h h' : HandOff} {t : ThreadId} {msg : MsgPtr} {lost : MsgPtr → Prop}

theorem Raised.mono (hr : h.Raised msg)
    (hheld : ∀ call ∈ h.held, call.msg = msg → call ∈ h'.held) (hthreads : h'.threads = h.threads) :
    h'.Raised msg := by
  rcases hr with ⟨call, hcall, hmsg⟩ | ⟨t, hin⟩
  · exact .inl ⟨call, hheld call hcall hmsg, hmsg⟩
  · refine .inr ⟨t, ?_⟩
    unfold Inside at hin ⊢
    rwa [hthreads]

namespace Owned

/-- The threads stay where they are. -/
theorem of_threads (ho : h.Owned lost) (hthreads : h'.threads = h.threads)
    (hloop : h'.mutex = h.mutex)
    (hmutex : ∀ msg m t, h'.msgs msg = some m → m.mutex = some t →
      ∃ m', h.msgs msg = some m' ∧ m'.mutex = some t)
    (hflag : ∀ msg m, h'.msgs msg = some m → m.flag = true →
      (∃ m', h.msgs msg = some m' ∧ m'.flag = true) ∧
        ∀ call ∈ h.held, call.msg = msg → call ∈ h'.held) : h'.Owned lost where
  loop t ht := by
    unfold Inside
    rw [hthreads]
    exact ho.loop t (hloop ▸ ht)
  mutex msg m t hm ht := by
    obtain ⟨m', hm', ht'⟩ := hmutex msg m t hm ht
    unfold Inside
    rw [hthreads]
    exact ho.mutex msg m' t hm' ht'
  flag msg m hm hup := by
    obtain ⟨⟨m', hm', hup'⟩, hheld⟩ := hflag msg m hm hup
    exact (ho.flag msg m' hm' hup').imp_left (·.mono hheld hthreads)

/-- A thread moves on. -/
theorem setPhase (ho : h.Owned lost) {phase phase' : Phase} (thread : h.threads[t]? = some phase)
    (hthreads : h'.threads = h.threads)
    (hloop : ∀ u, h'.mutex = some u → u ≠ t ∧ h.mutex = some u ∨
      u = t ∧ ∃ msg stage, phase' = .inside msg stage ∧ stage.locksLoop = true)
    (hmutex : ∀ msg m u, h'.msgs msg = some m → m.mutex = some u →
      (u ≠ t ∧ ∃ m', h.msgs msg = some m' ∧ m'.mutex = some u) ∨
        u = t ∧ ∃ stage, phase' = .inside msg stage)
    (hflag : ∀ msg m, h'.msgs msg = some m → m.flag = true →
      (∃ call ∈ h'.held, call.msg = msg) ∨
        (phase' = .inside msg .flagged ∨ phase' = .inside msg .locked) ∨
        (phase ≠ .inside msg .flagged ∧ phase ≠ .inside msg .locked ∧
          ∃ m', h.msgs msg = some m' ∧ m'.flag = true))
    (hheld : ∀ call ∈ h.held, call ∈ h'.held) : (h'.setPhase t phase').Owned lost := by
  have hthread' : h'.threads[t]? = some phase := by rw [hthreads, thread]
  have hself : ∀ {msg stage}, phase' = .inside msg stage →
      (h'.setPhase t phase').Inside t msg stage := fun heq => by
    rw [inside_setPhase hthread', if_pos rfl]
    exact heq
  have hother : ∀ {u msg stage}, u ≠ t → h.Inside u msg stage →
      (h'.setPhase t phase').Inside u msg stage := fun hne hin => by
    rw [inside_setPhase hthread', if_neg hne]
    unfold Inside at hin ⊢
    rwa [hthreads]
  constructor
  · intro u hu
    rcases hloop u hu with ⟨hne, hu'⟩ | ⟨rfl, msg, stage, heq, hlocks⟩
    · obtain ⟨msg, stage, hin, hlocks⟩ := ho.loop u hu'
      exact ⟨msg, stage, hother hne hin, hlocks⟩
    · exact ⟨msg, stage, hself heq, hlocks⟩
  · intro msg m u hm hu
    rcases hmutex msg m u hm hu with ⟨hne, m', hm', hu'⟩ | ⟨rfl, stage, heq⟩
    · obtain ⟨stage, hin⟩ := ho.mutex msg m' u hm' hu'
      exact ⟨stage, hother hne hin⟩
    · exact ⟨stage, hself heq⟩
  · intro msg m hm hup
    rcases hflag msg m hm hup with hcall | heq | ⟨hflagged, hlocked, m', hm', hup'⟩
    · exact .inl (.inl hcall)
    · exact .inl (.inr ⟨t, heq.imp hself hself⟩)
    · refine (ho.flag msg m' hm' hup').imp_left fun hraised => ?_
      rcases hraised with ⟨call, hcall, hmsg⟩ | ⟨u, hin⟩
      · exact .inl ⟨call, hheld call hcall, hmsg⟩
      · have hne : u ≠ t := by
          rintro rfl
          unfold Inside at hin
          rw [thread, Option.some.injEq, Option.some.injEq] at hin
          exact hin.elim hflagged hlocked
        exact .inr ⟨u, hin.imp (hother hne) (hother hne)⟩

/-- The threads stay where they are, and one message is given a new value, without a mutex
and with its condition false. -/
theorem lower (ho : h.Owned lost) {m : ActiveMsg} (hmutex : m.mutex = none) (hflag : m.flag = false)
    (hthreads : h'.threads = h.threads) (hloop : h'.mutex = h.mutex)
    (hmsgs : h'.msgs = Function.update h.msgs msg (some m))
    (hheld : ∀ call ∈ h.held, call.msg ≠ msg → call ∈ h'.held) : h'.Owned lost := by
  refine ho.of_threads hthreads hloop (fun msg' m' t hm ht => ?_) fun msg' m' hm hup => ?_
  all_goals
    rw [hmsgs] at hm
    by_cases heq : msg' = msg
    · rw [heq, Function.update_self, Option.some.injEq] at hm
      simp_all
    rw [Function.update_of_ne heq] at hm
  · exact ⟨m', hm, ht⟩
  · exact ⟨⟨m', hm, hup⟩, fun call hcall hmsg => hheld call hcall (hmsg ▸ heq)⟩

theorem pop (ho : h.Owned lost) (inactive : h.active = none) :
    Owned { h with
      active := h.queue.head?
      queue := h.queue.tail
      flag := !h.queue.tail.isEmpty } lost := by
  refine ho.of_threads rfl rfl (fun msg m t hm ht => ⟨m, hm, ht⟩) fun msg m hm hup =>
    ⟨⟨m, hm, hup⟩, fun call hcall _ => ?_⟩
  simp only [held, inactive, Option.toList_none, List.nil_append] at hcall ⊢
  cases hqueue : h.queue with
  | nil => simp [hqueue] at hcall
  | cons first rest => simpa [hqueue] using hcall

theorem release (ho : h.Owned lost) {call : Call} {m : ActiveMsg} (popped : h.active = some call)
    (unlocked : m.mutex = none) :
    Owned { h.setMsg call.msg { m with flag := false } with active := none } lost := by
  have hmutex : ({ m with flag := false } : ActiveMsg).mutex = none := unlocked
  refine ho.lower hmutex rfl rfl rfl rfl fun other hother hne => ?_
  simp only [held, popped, Option.toList_some, List.singleton_append, List.mem_cons] at hother
  exact hother.resolve_left fun heq => hne (heq ▸ rfl)

theorem destroy (ho : h.Owned lost) :
    Owned { h with
      active := h.active.filter (·.msg ≠ msg)
      queue := h.queue.filter (·.msg ≠ msg)
      msgs := Function.update h.msgs msg none } lost := by
  have hbefore : ∀ {msg' m}, Function.update h.msgs msg none msg' = some m →
      msg' ≠ msg ∧ h.msgs msg' = some m := by
    intro msg' m hm
    have hne : msg' ≠ msg := by
      rintro rfl
      simp at hm
    exact ⟨hne, (Function.update_of_ne hne _ _).symm.trans hm⟩
  refine ho.of_threads rfl rfl (fun msg' m t hm ht => ⟨m, (hbefore hm).2, ht⟩) fun msg' m hm hup =>
    ⟨⟨m, (hbefore hm).2, hup⟩, fun call hcall hmsg => ?_⟩
  have hkept : call.msg ≠ msg := hmsg ▸ (hbefore hm).1
  simp only [held, List.mem_append, Option.mem_toList, List.mem_filter] at hcall ⊢
  exact hcall.imp (fun ha => Option.filter_eq_some_iff.mpr ⟨ha, by simpa using hkept⟩)
    fun hq => ⟨hq, by simpa using hkept⟩

theorem erase (ho : h.Owned lost) {newEnd : ℕ}
    (hlost : ∀ call ∈ h.queue.drop newEnd, lost call.msg) :
    Owned { h with queue := h.queue.take newEnd } lost where
  loop := ho.loop
  mutex := ho.mutex
  flag msg m hm hup := by
    rcases ho.flag msg m hm hup with (⟨call, hcall, hmsg⟩ | hin) | hgone
    · have hsplit : h.held = (h.active.toList ++ h.queue.take newEnd) ++ h.queue.drop newEnd := by
        rw [List.append_assoc, List.take_append_drop]
        rfl
      rw [hsplit] at hcall
      rcases List.mem_append.mp hcall with hkept | hdropped
      · exact .inl (.inl ⟨call, hkept, hmsg⟩)
      · exact .inr (hmsg ▸ hlost call hdropped)
    · exact .inl (.inr hin)
    · exact .inr hgone

/-- A thread goes on in its `ActiveCall` and leaves the messages alone. -/
theorem setStage (ho : h.Owned lost) {stage stage' : Stage} (thread : h.Inside t msg stage)
    (hthreads : h'.threads = h.threads) (hmsgs : h'.msgs = h.msgs)
    (hloop : ∀ u, h'.mutex = some u → u ≠ t ∧ h.mutex = some u ∨
      u = t ∧ stage'.locksLoop = true)
    (hflag : stage = .flagged ∨ stage = .locked →
      stage' = .flagged ∨ stage' = .locked ∨ ∃ call ∈ h'.held, call.msg = msg)
    (hheld : ∀ call ∈ h.held, call ∈ h'.held) :
    (h'.setPhase t (.inside msg stage')).Owned lost := by
  refine ho.setPhase thread hthreads (fun u hu => ?_) (fun msg' m u hm hu => ?_)
    (fun msg' m hm hup => ?_) hheld
  · exact (hloop u hu).imp_right fun ⟨heq, hlocks⟩ => ⟨heq, msg, stage', rfl, hlocks⟩
  · rw [hmsgs] at hm
    by_cases heq : u = t
    · obtain ⟨stage'', hin⟩ := ho.mutex msg' m u hm hu
      rw [heq, Inside, thread, Option.some.injEq, Phase.inside.injEq] at hin
      exact .inr ⟨heq, stage', by rw [hin.1]⟩
    · exact .inl ⟨heq, m, hm, hu⟩
  · rw [hmsgs] at hm
    by_cases hstage : msg = msg' ∧ (stage = .flagged ∨ stage = .locked)
    · obtain ⟨rfl, hstage⟩ := hstage
      rcases hflag hstage with rfl | rfl | hcall
      · exact .inr (.inl (.inl rfl))
      · exact .inr (.inl (.inr rfl))
      · exact .inl hcall
    · refine .inr (.inr ⟨?_, ?_, m, hm, hup⟩)
      all_goals
        rw [Ne, Phase.inside.injEq]
        rintro ⟨heq, hat⟩
        simp [heq, hat] at hstage

/-- A thread comes into an `ActiveCall` or leaves it, or raises the condition of the message in
there. -/
theorem setOwn (ho : h.Owned lost) {phase phase' : Phase} {m : ActiveMsg}
    (thread : h.threads[t]? = some phase) (hphase : phase.msg = some msg)
    (hlocks : ∀ stage, phase = .inside msg stage → stage.locksLoop = false)
    (hstage : phase ≠ .inside msg .flagged ∧ phase ≠ .inside msg .locked)
    (hmutex : ∀ u, m.mutex = some u → u = t ∧ ∃ stage, phase' = .inside msg stage)
    (hflag : m.flag = true → phase' = .inside msg .flagged ∨
      ∃ m', h.msgs msg = some m' ∧ m'.flag = true) :
    ((h.setMsg msg m).setPhase t phase').Owned lost := by
  have hsame : ∀ msg' stage, phase = .inside msg' stage → msg' = msg := by
    rintro msg' stage rfl
    exact Option.some.inj hphase
  refine ho.setPhase thread rfl (fun u hu => ?_) (fun msg' m' u hm hu => ?_)
    (fun msg' m' hm hup => ?_) fun _ => id
  · refine .inl ⟨?_, hu⟩
    rintro rfl
    obtain ⟨msg', stage, hin, hstage'⟩ := ho.loop u hu
    have hin := Option.some.inj (thread.symm.trans hin)
    obtain rfl := hsame msg' stage hin
    rw [hlocks stage hin] at hstage'
    cases hstage'
  · by_cases heq : msg' = msg
    · subst heq
      obtain rfl := Option.some.inj ((setMsg_msgs_self h msg' m).symm.trans hm)
      exact .inr (hmutex u hu)
    · rw [setMsg_msgs_of_ne h heq] at hm
      refine .inl ⟨?_, m', hm, hu⟩
      rintro rfl
      obtain ⟨stage, hin⟩ := ho.mutex msg' m' u hm hu
      exact heq (hsame msg' stage (Option.some.inj (thread.symm.trans hin)))
  · by_cases heq : msg' = msg
    · subst heq
      obtain rfl := Option.some.inj ((setMsg_msgs_self h msg' m).symm.trans hm)
      rcases hflag hup with hnow | hbefore
      · exact .inr (.inl (.inl hnow))
      · exact .inr (.inr ⟨hstage.1, hstage.2, hbefore⟩)
    · rw [setMsg_msgs_of_ne h heq] at hm
      refine .inr (.inr ⟨fun hat => heq (hsame _ _ hat), fun hat => heq (hsame _ _ hat), m', hm,
        hup⟩)

/-- **Every step keeps it**, as long as no thread leaves its `ActiveCall` with the condition
raised and the message not in the queue. -/
theorem step {gone : List Call} (ho : h.Owned lost) (hg : h.Good) (hs : Step h gone h')
    (hgone : ∀ call ∈ gone, lost call.msg)
    (hkeep : ∀ t msg, h.Inside t msg .flagged →
      h'.Inside t msg .flagged ∨ h'.Inside t msg .locked) : h'.Owned lost := by
  cases hs with
  | idle => exact ho
  | pop inactive => exact ho.pop inactive
  | release popped alive unlocked => exact ho.release popped unlocked
  | construct fresh => exact ho.lower rfl rfl rfl rfl rfl fun _ hcall _ => hcall
  | @requestTermination msg m alive unlocked =>
      have hmutex : ({ m with destroyed := true, flag := false } : ActiveMsg).mutex = none :=
        unlocked
      exact ho.lower hmutex rfl rfl rfl rfl fun _ hcall _ => hcall
  | destroy unused => exact ho.destroy
  | erase newEnd => exact ho.erase hgone
  | @roam t phase phase' thread before after =>
      refine ho.setPhase thread rfl (fun u hu => .inl ⟨?_, hu⟩)
        (fun msg m u hm hu => .inl ⟨?_, m, hm, hu⟩)
        (fun msg m hm hup => .inr (.inr ⟨before _ _, before _ _, m, hm, hup⟩)) fun _ => id
      · rintro rfl
        obtain ⟨msg, stage, hin, -⟩ := ho.loop u hu
        exact before msg stage (Option.some.inj (thread.symm.trans hin))
      · rintro rfl
        obtain ⟨stage, hin⟩ := ho.mutex msg m u hm hu
        exact before msg stage (Option.some.inj (thread.symm.trans hin))
  | @enter t msg m thread alive unlocked down kept =>
      refine ho.setOwn thread rfl (by simp) (by simp) (fun u hu => ?_) fun hup => ?_
      · exact ⟨(Option.some.inj hu).symm, _, rfl⟩
      · exact absurd hup (by simp [down])
  | @setFlag t msg m thread alive =>
      refine ho.setOwn thread rfl (fun stage heq => ?_) (by simp) (fun u hu => ?_)
        fun _ => .inl rfl
      · cases heq
        rfl
      · obtain ⟨m', hm', howner, -⟩ := (hg.fits t msg _ thread).owner
        obtain rfl := Option.some.inj (alive.symm.trans hm')
        exact ⟨Option.some.inj (hu.symm.trans howner), _, rfl⟩
  | @lockLoop t msg thread unlocked =>
      refine ho.setStage thread rfl rfl (fun u hu => .inr ⟨(Option.some.inj hu).symm, rfl⟩)
        (fun _ => .inr (.inl rfl)) fun _ => id
  | @pushBack t msg thread =>
      have hholder : h.mutex = some t := (hg.fits t msg _ thread).holder rfl
      refine ho.setStage thread rfl rfl
        (fun u hu => .inr ⟨Option.some.inj (hu.symm.trans hholder), rfl⟩)
        (fun _ => .inr (.inr ⟨⟨msg, h.next⟩, ?_, rfl⟩)) fun call hcall => ?_
      · simp [held]
      · simp only [held, List.mem_append] at hcall ⊢
        exact hcall.imp_right .inl
  | @signal t msg thread =>
      have hholder : h.mutex = some t := (hg.fits t msg _ thread).holder rfl
      exact ho.setStage thread rfl rfl
        (fun u hu => .inr ⟨Option.some.inj (hu.symm.trans hholder), rfl⟩)
        (fun hstage => by simp at hstage) fun _ => id
  | @unlockLoop t msg thread =>
      exact ho.setStage thread rfl rfl (by simp) (fun hstage => by simp at hstage) fun _ => id
  | @leave t msg m stage thread unlocked alive =>
      have hstage : stage ≠ .flagged := by
        rintro rfl
        have hlen : t < h.threads.length := (List.getElem?_eq_some_iff.mp thread).1
        rcases hkeep t msg thread with hin | hin <;>
          simp [Inside, HandOff.setPhase, setMsg, List.getElem?_set_self hlen] at hin
      refine ho.setOwn thread rfl (fun stage' heq => ?_) ⟨?_, ?_⟩ (by simp)
        fun hup => .inr ⟨m, alive, hup⟩
      · obtain rfl := (Phase.inside.inj heq).2
        exact unlocked
      · rintro heq
        exact hstage (Phase.inside.inj heq).2
      · rintro heq
        rw [(Phase.inside.inj heq).2] at unlocked
        cases unlocked

end Owned

end HandOff

/-! ## Where a step takes a thread -/

/-- The steps in `RunLoop::enqueue`, with its mutex held. -/
def ThreadAction.enqueues : ThreadAction → Bool
  | .pushBack | .signal | .unlockLoop => true
  | .begin _ | .enter | .setFlag | .lockLoop | .leave | .exit => false

/-- An action of a thread takes it from one place to another. -/
inductive ThreadAction.Leads : ThreadAction → Phase → Phase → Prop
  | begin (msg : MsgPtr) : Leads (.begin msg) .out (.entering msg)
  | refused (msg : MsgPtr) : Leads .enter (.entering msg) .out
  | enter (msg : MsgPtr) : Leads .enter (.entering msg) (.inside msg .constructed)
  | setFlag (msg : MsgPtr) : Leads .setFlag (.inside msg .constructed) (.inside msg .flagged)
  | lockLoop (msg : MsgPtr) : Leads .lockLoop (.inside msg .flagged) (.inside msg .locked)
  | pushBack (msg : MsgPtr) : Leads .pushBack (.inside msg .locked) (.inside msg .pushed)
  | signal (msg : MsgPtr) : Leads .signal (.inside msg .pushed) (.inside msg .signalled)
  | unlockLoop (msg : MsgPtr) : Leads .unlockLoop (.inside msg .signalled) (.inside msg .called)
  | giveUp (msg : MsgPtr) : Leads .leave (.inside msg .constructed) .out
  | leave (msg : MsgPtr) : Leads .leave (.inside msg .called) .out
  | exit : Leads .exit .out .ended

namespace State

variable {s t : State} {act : Action}

theorem threadStep_leads {i : ThreadId} {act : ThreadAction} (h : s.threadStep i act = some t) :
    ∃ phase phase', s.threads[i]? = some phase ∧ t.threads = s.threads.set i phase' ∧
      act.Leads phase phase' := by
  unfold threadStep at h
  split at h
  · next msg hphase =>
      split_ifs at h
      cases h
      exact ⟨_, _, hphase, rfl, .begin msg⟩
  · next msg hphase =>
      split at h
      · next m hm =>
          split_ifs at h with hfree hdestroyed
          · cases h
            exact ⟨_, _, hphase, rfl, .refused msg⟩
          · cases h
            exact ⟨_, _, hphase, rfl, .enter msg⟩
      · cases h
  · next msg hphase =>
      obtain ⟨m, -, rfl⟩ := Option.map_eq_some_iff.mp h
      exact ⟨_, _, hphase, rfl, .setFlag msg⟩
  · next msg hphase =>
      split_ifs at h
      cases h
      exact ⟨_, _, hphase, rfl, .lockLoop msg⟩
  · next msg hphase =>
      cases h
      exact ⟨_, _, hphase, rfl, .pushBack msg⟩
  · next msg hphase =>
      cases h
      exact ⟨_, _, hphase, rfl, .signal msg⟩
  · next msg hphase =>
      cases h
      exact ⟨_, _, hphase, rfl, .unlockLoop msg⟩
  · next msg hphase =>
      obtain ⟨m, -, rfl⟩ := Option.map_eq_some_iff.mp h
      exact ⟨_, _, hphase, rfl, .giveUp msg⟩
  · next msg hphase =>
      obtain ⟨m, -, rfl⟩ := Option.map_eq_some_iff.mp h
      exact ⟨_, _, hphase, rfl, .leave msg⟩
  · next hphase =>
      cases h
      exact ⟨_, _, hphase, rfl, .exit⟩
  · cases h

/-- A thread that is refused finds its message about to terminate, and leaves it alone. -/
theorem refused_destroyed {i : ThreadId} {msg : MsgPtr} (h : s.threadStep i .enter = some t)
    (hin : s.threads[i]? = some (.entering msg)) (hout : t.threads[i]? = some .out) :
    t.msgs = s.msgs ∧ ∃ m, s.msgs msg = some m ∧ m.destroyed = true := by
  have hlen := (List.getElem?_eq_some_iff.mp hin).1
  simp only [threadStep, hin] at h
  split at h
  · next m hm =>
      split_ifs at h with hfree hdestroyed
      · cases h
        exact ⟨rfl, m, hm, hdestroyed⟩
      · cases h
        simp [setPhase, setMsg, hlen] at hout
  · cases h

theorem loopStep_threads {act : LoopAction} (h : s.loopStep act = some t) :
    t.threads = s.threads := by
  unfold loopStep at h
  split at h
  · cases h
    rfl
  · split_ifs at h
    · cases h
      unfold pop
      split <;> rfl
    · cases h
      rfl
  · split_ifs at h
    cases h
    rfl
  · cases h
    rfl
  · cases h
    rfl
  · split at h
    · cases h
      rfl
    · split at h
      · split_ifs at h
        cases h
        rfl
      · cases h
  · cases h
    rfl
  · cases h
    rfl
  · cases h
    rfl
  · cases h

theorem handlerStep_threads {act : HandlerAction} (h : s.handlerStep act = some t) :
    t.threads = s.threads := by
  cases act with
  | construct msg | requestTermination msg =>
      simp only [handlerStep] at h
      split at h
      · first
        | cases h
          rfl
        | split_ifs at h
          cases h
          rfl
      · cases h
  | join i | destroy msg | run =>
      simp only [handlerStep] at h
      split_ifs at h
      cases h
      rfl
  | stop =>
      cases h
      rfl

/-- Only a thread's own steps move it. -/
theorem step_threads (h : s.step act = some t) (hact : ∀ i a, act ≠ .thread i a) :
    t.threads = s.threads := by
  cases act with
  | thread i a => exact absurd rfl (hact i a)
  | loop a => exact loopStep_threads (step_loop h).2
  | handler a => exact handlerStep_threads (step_handler h).2.2
  | erase =>
      obtain ⟨newEnd, -, rfl⟩ := Option.map_eq_some_iff.mp h
      rfl

theorem step_other_thread {i j : ThreadId} {a : ThreadAction} (h : s.step (.thread i a) = some t)
    (hne : j ≠ i) : t.threads[j]? = s.threads[j]? := by
  obtain ⟨phase, phase', -, hthreads, -⟩ := threadStep_leads h
  rw [hthreads, List.getElem?_set_ne hne.symm]

/-- A thread that has raised the condition of its message goes on to the mutex of the loop. -/
theorem flagged_step {i : ThreadId} {msg : MsgPtr} (h : s.step act = some t)
    (hin : s.handOff.Inside i msg .flagged) :
    t.handOff.Inside i msg .flagged ∨ t.handOff.Inside i msg .locked := by
  change s.threads[i]? = _ at hin
  change t.threads[i]? = _ ∨ t.threads[i]? = _
  by_cases hact : ∃ j a, act = .thread j a
  · obtain ⟨j, a, rfl⟩ := hact
    by_cases hji : i = j
    · subst hji
      obtain ⟨phase, phase', hphase, hthreads, hleads⟩ := threadStep_leads h
      obtain rfl := Option.some.inj (hin.symm.trans hphase)
      cases hleads
      rw [hthreads, List.getElem?_set_self (List.getElem?_eq_some_iff.mp hphase).1]
      exact .inr rfl
    · rw [step_other_thread h hji]
      exact .inl hin
  · rw [step_threads h fun i a heq => hact ⟨i, a, heq⟩]
    exact .inl hin

variable {lost : MsgPtr → Prop}

theorem owned_init (threads : ℕ) : (init threads).handOff.Owned lost where
  loop := nofun
  mutex := nofun
  flag := nofun

theorem owned_step (hs : s.Sound) (ho : s.handOff.Owned lost) (h : s.step act = some t)
    (hlost : ∀ call ∈ s.loses act, lost call.msg) : t.handOff.Owned lost :=
  ho.step hs.good (step_advance hs.waiting h).handOff hlost fun _ _ hin => flagged_step h hin

/-! ## Where a message comes from -/

/-- The message was there before, and once it is to terminate it stays so. -/
def Since (s : State) (msg : MsgPtr) (m' : ActiveMsg) : Prop :=
  ∃ m, s.msgs msg = some m ∧ (m.destroyed = true → m'.destroyed = true)

theorem since_update {msg other : MsgPtr} {m m₁ m' : ActiveMsg} (hm : s.msgs other = some m)
    (hmsgs : t.msgs = Function.update s.msgs other (some m₁))
    (hmono : m.destroyed = true → m₁.destroyed = true) (hm' : t.msgs msg = some m') :
    s.Since msg m' := by
  rw [hmsgs] at hm'
  by_cases heq : msg = other
  · subst heq
    rw [Function.update_self, Option.some.injEq] at hm'
    exact ⟨m, hm, hm' ▸ hmono⟩
  · rw [Function.update_of_ne heq] at hm'
    exact ⟨m', hm', id⟩

theorem threadStep_since {i : ThreadId} {a : ThreadAction} {msg : MsgPtr} {m' : ActiveMsg}
    (h : s.threadStep i a = some t) (hm' : t.msgs msg = some m') : s.Since msg m' := by
  have hsame : t.msgs = s.msgs → s.Since msg m' := fun heq => ⟨m', heq ▸ hm', id⟩
  unfold threadStep at h
  split at h
  · split_ifs at h
    cases h
    exact hsame rfl
  · split at h
    · next m hm =>
        split_ifs at h
        · cases h
          exact hsame rfl
        · cases h
          exact since_update hm rfl (by exact id) hm'
    · cases h
  · obtain ⟨m, hm, rfl⟩ := Option.map_eq_some_iff.mp h
    exact since_update hm rfl (by exact id) hm'
  · split_ifs at h
    cases h
    exact hsame rfl
  · cases h
    exact hsame rfl
  · cases h
    exact hsame rfl
  · cases h
    exact hsame rfl
  · obtain ⟨m, hm, rfl⟩ := Option.map_eq_some_iff.mp h
    exact since_update hm rfl (by exact id) hm'
  · obtain ⟨m, hm, rfl⟩ := Option.map_eq_some_iff.mp h
    exact since_update hm rfl (by exact id) hm'
  · cases h
    exact hsame rfl
  · cases h

theorem loopStep_since {a : LoopAction} {msg : MsgPtr} {m' : ActiveMsg}
    (h : s.loopStep a = some t) (hm' : t.msgs msg = some m') : s.Since msg m' := by
  have hsame : t.msgs = s.msgs → s.Since msg m' := fun heq => ⟨m', heq ▸ hm', id⟩
  unfold loopStep at h
  split at h
  · cases h
    exact hsame rfl
  · split_ifs at h
    · cases h
      refine hsame ?_
      unfold pop
      split <;> rfl
    · cases h
      exact hsame rfl
  · split_ifs at h
    cases h
    exact hsame rfl
  · cases h
    exact hsame rfl
  · cases h
    exact hsame rfl
  · split at h
    · cases h
      exact hsame rfl
    · split at h
      · next m hm =>
          split_ifs at h
          cases h
          exact since_update hm rfl (by exact id) hm'
      · cases h
  · cases h
    exact hsame rfl
  · cases h
    exact hsame rfl
  · cases h
    exact hsame rfl
  · cases h

/-- **A message that was not constructed in this step** was there before. -/
theorem step_since {msg : MsgPtr} {m' : ActiveMsg} (h : s.step act = some t)
    (hact : act ≠ .handler (.construct msg)) (hm' : t.msgs msg = some m') : s.Since msg m' := by
  cases act with
  | thread i a => exact threadStep_since h hm'
  | loop a => exact loopStep_since (step_loop h).2 hm'
  | erase =>
      obtain ⟨newEnd, -, rfl⟩ := Option.map_eq_some_iff.mp h
      exact ⟨m', hm', id⟩
  | handler a =>
      obtain ⟨-, -, h⟩ := step_handler h
      cases a with
      | construct other =>
          simp only [handlerStep] at h
          split at h
          · cases h
            have hne : msg ≠ other := fun heq => hact (heq ▸ rfl)
            exact ⟨m', (Function.update_of_ne hne _ _).symm.trans hm', id⟩
          · cases h
      | requestTermination other =>
          simp only [handlerStep] at h
          split at h
          · next m hm =>
              split_ifs at h
              cases h
              exact since_update hm rfl (by simp) hm'
          · cases h
      | destroy other =>
          simp only [handlerStep] at h
          split_ifs at h
          cases h
          have hne : msg ≠ other := by
            rintro rfl
            simp at hm'
          exact ⟨m', (Function.update_of_ne hne _ _).symm.trans hm', id⟩
      | join j | run =>
          simp only [handlerStep] at h
          split_ifs at h
          cases h
          exact ⟨m', hm', id⟩
      | stop =>
          cases h
          exact ⟨m', hm', id⟩

/-! ## The calls that wait for their `onCall` -/

/-- They are with the loop. -/
theorem pending_sublist (s : State) : s.pending.Sublist s.handOff.held := by
  change s.pending.Sublist (s.active.toList ++ s.queue)
  unfold pending active
  cases s.control <;> simp

theorem Sound.pending_nodup (hs : s.Sound) : (s.pending.map Call.msg).Nodup :=
  hs.good.nodup.sublist (s.pending_sublist.map Call.msg)

/-- Only a call that is pushed, taken or withdrawn changes them. -/
theorem pending_of_label (hs : s.Sound) (h : s.step act = some t) (hlabel : s.label act = none) :
    t.pending = s.pending := by
  have hmoves := (step_advance hs.waiting h).moves
  rwa [hlabel] at hmoves

/-- The message of the call that is taken has no other call. -/
theorem pending_onCall (hs : s.Sound) (h : s.step (.loop .onCall) = some t) {call : Call}
    (hcall : s.processedMsg = some call) :
    s.pending = call :: t.pending ∧ ∀ other ∈ t.pending, other.msg ≠ call.msg := by
  have hmoves := (step_advance hs.waiting h).moves
  rw [label, hcall] at hmoves
  have hpending : s.pending = call :: t.pending := by
    generalize hbefore : s.pending = before at hmoves
    cases hmoves
    rfl
  have hnodup := hs.pending_nodup
  rw [hpending, List.map_cons, List.nodup_cons] at hnodup
  exact ⟨hpending, fun other hother heq => hnodup.1 (heq ▸ List.mem_map_of_mem hother)⟩

/-- While a call is being made, no other call of its message waits. -/
theorem Sound.not_pending_in_call (hs : s.Sound) (hcontrol : s.control = .inCall) {call : Call}
    (hcall : s.processedMsg = some call) : ∀ other ∈ s.pending, other.msg ≠ call.msg := by
  have hheld : s.handOff.held = call :: s.queue := by
    change s.active.toList ++ s.queue = _
    rw [active, hcontrol]
    simp [hcall]
  have hnodup := hs.good.nodup
  rw [hheld, List.map_cons, List.nodup_cons] at hnodup
  rw [pending_eq_queue (by simp [hcontrol, Control.inProgram])]
  exact fun other hother heq => hnodup.1 (heq ▸ List.mem_map_of_mem hother)

/-! ## Who keeps a thread waiting -/

/-- A thread in `RunLoop::enqueue` goes on without waiting. -/
theorem enqueue_goes_on {i : ThreadId} {msg : MsgPtr} {stage : Stage}
    (hin : s.threads[i]? = some (.inside msg stage)) (hlocks : stage.locksLoop = true) :
    ∃ a t, a.enqueues = true ∧ s.step (.thread i a) = some t := by
  cases stage with
  | locked => exact ⟨.pushBack, _, rfl, by simp only [step, threadStep, hin]; rfl⟩
  | pushed => exact ⟨.signal, _, rfl, by simp only [step, threadStep, hin]; rfl⟩
  | signalled => exact ⟨.unlockLoop, _, rfl, by simp only [step, threadStep, hin]; rfl⟩
  | constructed | flagged | called => cases hlocks

/-- **The mutex of the loop** is free, or a thread in `RunLoop::enqueue` holds it. -/
theorem loop_waits (ho : s.handOff.Owned lost) {i : ThreadId} {msg : MsgPtr}
    (hin : s.threads[i]? = some (.inside msg .flagged)) :
    (∃ t, s.step (.thread i .lockLoop) = some t) ∨
      ∃ j a t, s.mutex = some j ∧ a.enqueues = true ∧ s.step (.thread j a) = some t := by
  cases hmutex : s.mutex with
  | none => exact .inl ⟨_, by simp only [step, threadStep, hin, hmutex, if_true]; rfl⟩
  | some j =>
      obtain ⟨msg', stage, hin', hlocks⟩ := ho.loop j hmutex
      obtain ⟨a, t, ha, hstep⟩ := enqueue_goes_on hin' hlocks
      exact .inr ⟨j, a, t, rfl, ha, hstep⟩

/-- **The constructor of `ActiveCall`** is passed, or another thread is in an `ActiveCall` of
the message, or the loop has the message, or a call of it was lost. -/
theorem enter_waits (ho : s.handOff.Owned lost) {i : ThreadId} {msg : MsgPtr} {m : ActiveMsg}
    (hin : s.threads[i]? = some (.entering msg)) (hm : s.msgs msg = some m) :
    (∃ t, s.step (.thread i .enter) = some t) ∨
      (∃ (j : ThreadId) (stage : Stage), s.threads[j]? = some (.inside msg stage)) ∨
        (∃ call ∈ s.active.toList ++ s.queue, call.msg = msg) ∨ lost msg := by
  cases hmutex : m.mutex with
  | some j =>
      obtain ⟨stage, hin'⟩ := ho.mutex msg m j hm hmutex
      exact .inr (.inl ⟨j, stage, hin'⟩)
  | none =>
      cases hflag : m.flag with
      | true =>
          rcases ho.flag msg m hm hflag with (hheld | ⟨j, hin' | hin'⟩) | hgone
          · exact .inr (.inr (.inl hheld))
          · exact .inr (.inl ⟨j, _, hin'⟩)
          · exact .inr (.inl ⟨j, _, hin'⟩)
          · exact .inr (.inr (.inr hgone))
      | false =>
          refine .inl ?_
          simp only [step, threadStep, hin, hm, hmutex, hflag, and_self, if_true]
          split <;> exact ⟨_, rfl⟩

end State

end Messages

end Craplib
