import Craplib.Http.HeadersWriter
import Craplib.Net.EnumerationSteps

/-!
# What the delegate of `NetworkInterfaces` is told

The thread of the object is never stuck (`Inv.goesOn`) and has only so many steps to make
(`left_le`); what it hands over, the delegate is told of (`Inv`).  `works_iff` says for which lists
nothing goes wrong, in any order of the steps and whatever else is on the run loop: those
whose entries all have an address.  That no call of the message gets lost is a condition there
(`Quiet`): what loses one is the destruction of some other message on the loop.  `exists_ready`
leads the thread to each of them, on a run loop with nothing else.
-/

namespace Craplib

open Machine Messages

namespace NetworkInterfaces

variable {pf : Platform} {ni : NetworkInterfaces} {entries : List IfAddrs} {e : IfAddrs}
  {s t : State} {phase phase' : Phase} {lost : Prop}

/-! ## Nobody is stuck -/

/-- The steps of the thread of the object. -/
def owns (ni : NetworkInterfaces) : Action → Bool
  | .assign _ => true
  | .base (.thread i _) => i = ni.thread
  | .copy _ | .base _ => false

/-- The thread has ended, and no call waits. -/
def Complete (ni : NetworkInterfaces) (s : State) : Prop :=
  s.loop.threads[ni.thread]? = some .ended ∧ ¬ ni.Pending s

/-- The enumeration is complete, or its thread can go on, or the thread waits for one that can,
or the loop has its message. -/
inductive GoesOn (pf : Platform) (ni : NetworkInterfaces) (s : State) : Prop
  | complete (h : ni.Complete s)
  | own (act : Action) (t : State) (hown : ni.owns act = true) (h : step pf ni s act = some t)
  | enqueue (j : ThreadId) (a : ThreadAction) (t : State) (hmutex : s.loop.mutex = some j)
      (h : step pf ni s (.base (.thread j a)) = some t)
  | held (call : Call) (hmsg : call.msg = ni.msg)
      (h : call ∈ s.loop.active.toList ++ s.loop.queue)

theorem step_base {act : Messages.Action} {loop : Messages.State} (hcrashed : s.crashed = false)
    (hallowed : ni.allowed s act = true) (hstep : s.loop.step act = some loop) :
    step pf ni s (.base act) = some (ni.follow s act loop) := by
  simp [step, hcrashed, hallowed, hstep]

theorem step_assign (garbage : SockAddr) {inaddr : IfAddrs} (hcrashed : s.crashed = false)
    (hthread : s.loop.threads[ni.thread]? = some (.inside ni.msg .constructed))
    (hassigned : s.assigned = false) (hentry : s.addrs[s.p]? = some inaddr) :
    step pf ni s (.assign garbage) = some (assign pf s garbage inaddr) := by
  simp [step, hcrashed, hthread, hassigned, hentry]

theorem Inv.not_thrown (h : Inv pf ni lost entries s phase) {m : ActiveMsg}
    (hm : s.loop.msgs ni.msg = some m) (halive : m.destroyed = false) : s.thrown = false := by
  by_contra hcontra
  rw [h.stopped (by simpa using hcontra) m hm] at halive
  cases halive

/-- The thread makes a step on its own. -/
theorem exists_own {a : ThreadAction} (hcrashed : s.crashed = false)
    (hallowed : ni.allowed s (.thread ni.thread a) = true)
    (hstep : ∃ loop, s.loop.step (.thread ni.thread a) = some loop) :
    ∃ act t, ni.owns act = true ∧ step pf ni s act = some t := by
  obtain ⟨loop, hloop⟩ := hstep
  exact ⟨_, _, by simp [owns], step_base hcrashed hallowed hloop⟩

/-- In its `ActiveCall` the thread waits only for the mutex of the run loop. -/
theorem Inv.inside_goesOn {msg : MsgPtr} {stage : Stage}
    (h : Inv pf ni lost entries s (.inside msg stage)) (hcrashed : s.crashed = false)
    {m : ActiveMsg} (hm : s.loop.msgs ni.msg = some m) :
    (∃ act t, ni.owns act = true ∧ NetworkInterfaces.step pf ni s act = some t) ∨
      ∃ j a t, s.loop.mutex = some j ∧
        NetworkInterfaces.step pf ni s (.base (.thread j a)) = some t := by
  have hthread := h.thread
  obtain ⟨rfl, -, hlt, hassigned⟩ := h.place
  cases stage with
  | constructed =>
      refine .inl ?_
      cases hset : s.assigned with
      | false =>
          have hentry : s.addrs[s.p]? = some s.addrs[s.p] := List.getElem?_eq_getElem hlt
          exact ⟨_, _, rfl, step_assign (fun _ => 0) hcrashed hthread hset hentry⟩
      | true =>
          refine exists_own (a := .setFlag) hcrashed (by simp [allowed, hset]) ?_
          simp [Messages.State.step, Messages.State.threadStep, hthread, hm]
  | flagged =>
      rcases Messages.State.loop_waits h.alone.owned hthread with ⟨loop, hstep⟩ |
        ⟨j, a, loop, hmutex, ha, hstep⟩
      · exact .inl (exists_own hcrashed rfl ⟨loop, hstep⟩)
      · refine .inr ⟨j, a, _, hmutex, step_base hcrashed ?_ hstep⟩
        cases a with
        | pushBack | signal | unlockLoop => rfl
        | begin | enter | setFlag | lockLoop | leave | exit => cases ha
  | locked | pushed | signalled =>
      obtain ⟨a, loop, ha, hstep⟩ := Messages.State.enqueue_goes_on hthread rfl
      refine .inl (exists_own hcrashed ?_ ⟨loop, hstep⟩)
      cases a with
      | pushBack | signal | unlockLoop => rfl
      | begin | enter | setFlag | lockLoop | leave | exit => cases ha
  | called =>
      refine .inl (exists_own (a := .leave) hcrashed (by simp [allowed, hthread]) ?_)
      simp [Messages.State.step, Messages.State.threadStep, hthread, hm]

/-- **The thread of the object is never stuck**, unless a call of its message was lost. -/
theorem Inv.goesOn (h : Inv pf ni False entries s phase) (hcrashed : s.crashed = false)
    {m : ActiveMsg} (hm : s.loop.msgs ni.msg = some m) (halive : m.destroyed = false) :
    GoesOn pf ni s := by
  have hown : ∀ a, ni.allowed s (.thread ni.thread a) = true →
      (∃ loop, s.loop.step (.thread ni.thread a) = some loop) → GoesOn pf ni s := by
    intro a ha hstep
    obtain ⟨act, t, howns, ht⟩ := exists_own hcrashed ha hstep
    exact .own act t howns ht
  have hthrown := h.not_thrown hm halive
  have hthread := h.thread
  cases phase with
  | out =>
      by_cases hlt : s.p < s.addrs.length
      · refine hown (.begin ni.msg) (by simp [allowed, hlt, hthrown]) ?_
        simp [Messages.State.step, Messages.State.threadStep, hthread, hm]
      · refine hown .exit (by simp [allowed, Nat.le_of_not_lt hlt]) ?_
        simp [Messages.State.step, Messages.State.threadStep, hthread]
  | entering msg =>
      obtain ⟨rfl, -⟩ := h.place
      rcases Messages.State.enter_waits h.alone.owned hthread hm with ⟨loop, hstep⟩ |
        ⟨j, stage, hin⟩ | ⟨call, hcall, hmsg⟩ | hlost
      · exact hown .enter rfl ⟨loop, hstep⟩
      · have hne : j ≠ ni.thread := by
          rintro rfl
          rw [hthread] at hin
          cases hin
        exact absurd rfl (h.alone.others j _ hne hin)
      · exact .held call hmsg hcall
      · exact (hlost rfl).elim
  | inside msg stage =>
      rcases h.inside_goesOn hcrashed hm with ⟨act, t, hown, ht⟩ | ⟨j, a, t, hmutex, ht⟩
      · exact .own act t hown ht
      · exact .enqueue j a t hmutex ht
  | ended =>
      by_cases hpending : ni.Pending s
      · obtain ⟨call, hcall, hmsg⟩ := hpending
        exact .held call hmsg (s.loop.pending_sublist.subset hcall)
      · exact .complete ⟨hthread, hpending⟩

/-! ## How long the thread takes -/

/-- How many steps the thread of the object has left at most: nine for an entry, and the last. -/
def left (s : State) (phase : Phase) : ℕ :=
  if s.crashed then 0
  else
    match phase with
    | .out => if s.thrown then 1 else 9 * (s.addrs.length - s.p) + 1
    | .entering _ => 9 * (s.addrs.length - s.p)
    | .inside _ .constructed => 9 * (s.addrs.length - s.p) - if s.assigned then 2 else 1
    | .inside _ .flagged => 9 * (s.addrs.length - s.p) - 3
    | .inside _ .locked => 9 * (s.addrs.length - s.p) - 4
    | .inside _ .pushed => 9 * (s.addrs.length - s.p) - 5
    | .inside _ .signalled => 9 * (s.addrs.length - s.p) - 6
    | .inside _ .called => 9 * (s.addrs.length - s.p) - 7
    | .ended => 0

/-- A step of its own. -/
theorem left_own (h : Inv pf ni lost entries s phase) (h' : Inv pf ni lost entries t phase')
    {a : ThreadAction} {loop : Messages.State} (hcrashed : s.crashed = false)
    (hallowed : ni.allowed s (.thread ni.thread a) = true)
    (hstep : s.loop.step (.thread ni.thread a) = some loop)
    (ht : t = ni.follow s (.thread ni.thread a) loop) : left t phase' < left s phase := by
  obtain ⟨phase₀, phase₁, hphase, hthreads, hleads⟩ := Messages.State.threadStep_leads hstep
  obtain rfl := Option.some.inj (h.thread.symm.trans hphase)
  have hthread : loop.threads[ni.thread]? = some phase₁ := by
    rw [hthreads, List.getElem?_set_self (List.getElem?_eq_some_iff.mp hphase).1]
  have hloop : t.loop = loop := by
    rw [ht]
    cases a <;> simp only [follow] <;> try split <;> rfl
  obtain rfl : phase' = phase₁ := by
    have hthread' := h'.thread
    rw [hloop, hthread] at hthread'
    exact (Option.some.inj hthread').symm
  have hplace := h.place
  subst ht
  cases hleads with
  | begin msg =>
      obtain ⟨-, hlt, hthrown⟩ : msg = ni.msg ∧ s.p < s.addrs.length ∧ s.thrown = false := by
        simpa [allowed] using hallowed
      simp [left, follow, hcrashed, hthrown]
  | refused msg =>
      obtain ⟨-, -, -, hlt⟩ := hplace
      simp only [left, follow, hthread, hcrashed, and_self, if_true, Bool.false_eq_true, if_false]
      omega
  | enter msg =>
      obtain ⟨-, hassigned, -, hlt⟩ := hplace
      simp [left, follow, hthread, hcrashed, hassigned]
      omega
  | setFlag msg =>
      obtain ⟨-, -, hlt, -⟩ := hplace
      have hassigned : s.assigned = true := by simpa [allowed] using hallowed
      simp [left, follow, hcrashed, hassigned]
      omega
  | lockLoop msg | pushBack msg | signal msg | unlockLoop msg =>
      obtain ⟨-, -, hlt, -⟩ := hplace
      simp [left, follow, hcrashed]
      omega
  | giveUp msg =>
      have hat : s.loop.threads[ni.thread]? = some (.inside ni.msg .called) := by
        simpa [allowed] using hallowed
      rw [hphase] at hat
      cases hat
  | leave msg =>
      obtain ⟨-, hthrown, hlt, -⟩ := hplace
      simp [left, follow, hcrashed, hthrown]
      omega
  | exit =>
      simp [left, follow, hcrashed]
      split <;> omega

/-- A step of somebody else leaves the thread and its variables where they are. -/
theorem left_congr (h : Inv pf ni lost entries s phase) (h' : Inv pf ni lost entries t phase')
    (hthread : t.loop.threads[ni.thread]? = s.loop.threads[ni.thread]?)
    (haddrs : t.addrs = s.addrs) (hp : t.p = s.p) (hassigned : t.assigned = s.assigned)
    (hthrown : t.thrown = s.thrown) (hcrashed : t.crashed = s.crashed) :
    left t phase' = left s phase := by
  obtain rfl : phase' = phase := by
    have hthread' := h'.thread
    rw [hthread, h.thread] at hthread'
    exact (Option.some.inj hthread').symm
  unfold left
  rw [haddrs, hp, hassigned, hthrown, hcrashed]

/-- The assignment, or the crash. -/
theorem left_assign (h : Inv pf ni lost entries s (.inside ni.msg .constructed))
    {garbage : SockAddr} {inaddr : IfAddrs}
    (h' : Inv pf ni lost entries (assign pf s garbage inaddr) phase') (hcrashed : s.crashed = false)
    (hassigned : s.assigned = false) :
    left (assign pf s garbage inaddr) phase' < left s (.inside ni.msg .constructed) := by
  have hlt := h.place.2.2.1
  obtain rfl : phase' = .inside ni.msg .constructed := by
    have hthread' := h'.thread
    unfold NetworkInterfaces.assign at hthread'
    split at hthread' <;> exact Option.some.inj (hthread'.symm.trans h.thread)
  unfold NetworkInterfaces.assign
  split
  · simp [left, hcrashed, hassigned]
    omega
  · simp [left, hcrashed, hassigned]
    omega

theorem left_le (h : Inv pf ni lost entries s phase) (h' : Inv pf ni lost entries t phase')
    {act : Action} (hstep : step pf ni s act = some t) :
    left t phase' + (if ni.owns act then 1 else 0) ≤ left s phase := by
  obtain ⟨hcrashed, hleads⟩ := step_leads hstep
  cases hleads with
  | assign garbage hthread hassigned hentry =>
      obtain rfl := Option.some.inj (h.thread.symm.trans hthread)
      exact left_assign h h' hcrashed hassigned
  | copy garbage hcontrol hcall => exact (left_congr h h' rfl rfl rfl rfl rfl rfl).le
  | @base act loop hallowed hloop =>
      cases act with
      | thread i a =>
          by_cases hi : i = ni.thread
          · subst hi
            rw [if_pos (by simp [owns])]
            exact left_own h h' hcrashed hallowed hloop rfl
          · rw [if_neg (by simp [owns, hi])]
            rw [follow_other hi a] at h' ⊢
            exact (left_congr h h' (Messages.State.step_other_thread hloop (Ne.symm hi))
              rfl rfl rfl rfl rfl).le
      | loop a =>
          have hthreads := Messages.State.step_threads hloop (by simp)
          obtain ⟨detected, hfollow⟩ := follow_loop ni s loop a
          rw [hfollow] at h' ⊢
          exact (left_congr h h' (by rw [← hthreads]) rfl rfl rfl rfl rfl).le
      | handler a | erase =>
          have hthreads := Messages.State.step_threads hloop (by simp)
          exact (left_congr h h' (by rw [← hthreads]; rfl) rfl rfl rfl rfl rfl).le

/-- No call of its message gets lost. -/
def Quiet (ni : NetworkInterfaces) (tr : List (State × Action)) : Prop :=
  ∀ p ∈ tr, ∀ call ∈ p.1.loses p.2, call.msg ≠ ni.msg

/-- How many steps the thread of the object has made. -/
def ownSteps (ni : NetworkInterfaces) (tr : List (State × Action)) : ℕ :=
  (tr.filter fun p => ni.owns p.2).length

theorem inv_of_run (lost : Prop) {s₀ : State} {tr : List (State × Action)}
    (hs : ni.Started entries s₀) (hrun : Run (Fires (step pf ni)) s₀ tr s)
    (hlost : ∀ p ∈ tr, ∀ call ∈ p.1.loses p.2, call.msg = ni.msg → lost) :
    ∃ phase, Inv pf ni lost entries s phase ∧
      ni.ownSteps tr + left s phase ≤ 9 * entries.length + 1 := by
  induction hrun with
  | nil =>
      refine ⟨.out, hs.inv, ?_⟩
      simp [ownSteps, left, hs.crashed, hs.thrown, hs.addrs, hs.p]
  | @snoc tr s t act _ hstep ih =>
      obtain ⟨phase, h, hle⟩ := ih fun p hp => hlost p (List.mem_append_left _ hp)
      obtain ⟨phase', h'⟩ := h.step hstep (hlost (s, act) (by simp))
      have hleft := left_le h h' hstep
      refine ⟨phase', h', ?_⟩
      have hsnoc : ni.ownSteps (tr ++ [(s, act)]) =
          ni.ownSteps tr + if ni.owns act then 1 else 0 := by
        unfold ownSteps
        rw [List.filter_append, List.length_append]
        cases howns : ni.owns act <;> simp [howns]
      omega

/-! ## A run loop with nothing else on it -/

/-- The loop is at the beginning of a turn, with this queue; the thread is at the entry with number
`i` and in this place, and its message as it should be there. -/
structure Stands (s : State) (i : ℕ) (phase : Phase) (m : ActiveMsg) (calls : List Call)
    (assigned : Bool) : Prop where
  msg : s.loop.msgs 0 = some m
  threads : s.loop.threads = [phase]
  queue : s.loop.queue = calls
  flag : calls ≠ [] → s.loop.flag = true
  mutex : s.loop.mutex = none
  control : s.loop.control = .turn
  running : s.loop.running = true
  newEnd : s.loop.newEnd = none
  p : s.p = i
  assigned : s.assigned = assigned
  thrown : s.thrown = false
  crashed : s.crashed = false

/-- The thread is about to begin with the entry with number `i`. -/
def Ready (s : State) (i : ℕ) : Prop := Stands s i .out {} [] false

/-- The thread comes to the assignment. -/
def reach : List Action :=
  [.base (.thread 0 (.begin 0)), .base (.thread 0 .enter), .assign fun _ => 0]

/-- The thread hands the entry over. -/
def handOver : List Action :=
  [.base (.thread 0 .setFlag), .base (.thread 0 .lockLoop), .base (.thread 0 .pushBack),
    .base (.thread 0 .signal), .base (.thread 0 .unlockLoop), .base (.thread 0 .leave)]

/-- The loop makes a turn. -/
def turn : List Action :=
  [.base (.loop (.beginTurn false)), .base (.loop .acquire), .base (.loop .onCall),
    .base (.loop .ret), .base (.loop .release), .base (.loop (.endTurn false))]

section

variable (pf) (filter : Family) {i number : ℕ}

/-- An entry with an address is read. -/
theorem Ready.reach (h : Ready s i) (hentry : s.addrs[i]? = some e) (haddr : e.ifaAddr ≠ none) :
    ∃ t, exec (step pf ⟨filter, 0, 0⟩) s NetworkInterfaces.reach = some t ∧
      Stands t i (.inside 0 .constructed) { mutex := some 0 } [] true := by
  obtain ⟨⟨msgs, queue, processedMsg, flag, mutex, msgCnt, running, control, threads, next,
    newEnd⟩, addrs,
    p, assigned, thrown, crashed, curInterface, detected⟩ := s
  obtain ⟨hmsg, rfl, rfl, hflag, rfl, rfl, rfl, rfl, rfl, rfl, rfl, rfl⟩ := h
  simp only at hmsg hentry
  obtain ⟨hlt, hget⟩ := List.getElem?_eq_some_iff.mp hentry
  obtain ⟨out, hof⟩ : ∃ out, NetworkInterface.ofIfAddrs pf (fun _ => 0) e = some out :=
    Option.ne_none_iff_exists'.mp (mt NetworkInterface.ofIfAddrs_eq_none.mp haddr)
  let loop : Messages.State :=
    { msgs := Function.update msgs 0 (some { mutex := some 0 }), processedMsg := processedMsg,
      flag := flag, msgCnt := msgCnt, running := true, control := .turn,
      threads := [.inside 0 .constructed], next := next }
  refine ⟨⟨loop, addrs.set p out.2, p, true, false, false, out.1, detected⟩, ?_,
    ⟨by simp [loop], rfl, rfl, by simp [loop], rfl, rfl, rfl, rfl, rfl, rfl, rfl, rfl⟩⟩
  simp [exec, NetworkInterfaces.reach, step, allowed, follow, assign, Messages.State.step,
    Messages.State.threadStep, Messages.State.setPhase, Messages.State.setMsg, hmsg, hlt, hget, hof,
    loop]

/-- **An entry without an address** is not survived. -/
theorem Ready.crash (h : Ready s i) (hentry : s.addrs[i]? = some e) (haddr : e.ifaAddr = none) :
    ∃ t, exec (step pf ⟨filter, 0, 0⟩) s NetworkInterfaces.reach = some t ∧ t.crashed = true := by
  obtain ⟨⟨msgs, queue, processedMsg, flag, mutex, msgCnt, running, control, threads, next,
    newEnd⟩, addrs,
    p, assigned, thrown, crashed, curInterface, detected⟩ := s
  obtain ⟨hmsg, rfl, rfl, hflag, rfl, rfl, rfl, rfl, rfl, rfl, rfl, rfl⟩ := h
  simp only at hmsg hentry
  obtain ⟨hlt, hget⟩ := List.getElem?_eq_some_iff.mp hentry
  have hof : NetworkInterface.ofIfAddrs pf (fun _ => 0) e = none :=
    NetworkInterface.ofIfAddrs_eq_none.mpr haddr
  simp [exec, NetworkInterfaces.reach, step, allowed, follow, assign, Messages.State.step,
    Messages.State.threadStep, Messages.State.setPhase, Messages.State.setMsg, hmsg, hlt, hget, hof]

theorem Stands.handOver (h : Stands s i (.inside 0 .constructed) { mutex := some 0 } [] true) :
    ∃ t number, exec (step pf ⟨filter, 0, 0⟩) s NetworkInterfaces.handOver = some t ∧
      Stands t (i + 1) .out { flag := true } [⟨0, number⟩] false := by
  obtain ⟨⟨msgs, queue, processedMsg, flag, mutex, msgCnt, running, control, threads, next,
    newEnd⟩, addrs,
    p, assigned, thrown, crashed, curInterface, detected⟩ := s
  obtain ⟨hmsg, rfl, rfl, hflag, rfl, rfl, rfl, rfl, rfl, rfl, rfl, rfl⟩ := h
  simp only at hmsg
  let loop : Messages.State :=
    { msgs := Function.update msgs 0 (some { flag := true }), queue := [⟨0, next⟩],
      processedMsg := processedMsg, flag := true, msgCnt := msgCnt, running := true,
      control := .turn, threads := [.out], next := next + 1 }
  refine ⟨⟨loop, addrs, p + 1, false, false, false, curInterface, detected⟩, next, ?_,
    ⟨by simp [loop], rfl, rfl, fun _ => rfl, rfl, rfl, rfl, rfl, rfl, rfl, rfl, rfl⟩⟩
  simp [exec, NetworkInterfaces.handOver, step, allowed, follow, Messages.State.step,
    Messages.State.threadStep, Messages.State.setPhase, Messages.State.setMsg,
    Messages.State.setFlag, hmsg, loop]

theorem Stands.turn (h : Stands s i .out { flag := true } [⟨0, number⟩] false) :
    ∃ t, exec (step pf ⟨filter, 0, 0⟩) s NetworkInterfaces.turn = some t ∧ Ready t i := by
  obtain ⟨⟨msgs, queue, processedMsg, flag, mutex, msgCnt, running, control, threads, next,
    newEnd⟩, addrs,
    p, assigned, thrown, crashed, curInterface, detected⟩ := s
  obtain ⟨hmsg, rfl, rfl, hflag, rfl, rfl, rfl, rfl, rfl, rfl, rfl, rfl⟩ := h
  simp only at hmsg
  obtain rfl : flag = true := hflag (List.cons_ne_nil _ _)
  let loop : Messages.State :=
    { msgs := Function.update msgs 0 (some {}), processedMsg := some ⟨0, number⟩,
      msgCnt := msgCnt, running := true, control := .turn, threads := [.out], next := next }
  refine ⟨⟨loop, addrs, p, false, false, false, curInterface,
    detected ++ NetworkInterfaces.onCall ⟨filter, 0, 0⟩ curInterface⟩, ?_,
    ⟨by simp [loop], rfl, rfl, by simp [loop], rfl, rfl, rfl, rfl, rfl, rfl, rfl, rfl⟩⟩
  simp [exec, NetworkInterfaces.turn, step, allowed, follow, Messages.State.step,
    Messages.State.loopStep, Messages.State.setMsg, Messages.State.pop, hmsg, loop]

/-- No message is destroyed in these steps. -/
def Undestroyed (tr : List (State × Action)) : Prop := ∀ act ∈ actions tr, act ≠ .base .erase

theorem Undestroyed.append {tr tr' : List (State × Action)} (h : Undestroyed tr)
    (h' : Undestroyed tr') : Undestroyed (tr ++ tr') := by
  intro act hact
  rw [actions_append, List.mem_append] at hact
  exact hact.elim (h act) (h' act)

theorem Undestroyed.quiet {tr : List (State × Action)} (h : Undestroyed tr) : ni.Quiet tr := by
  rintro ⟨s, act⟩ hp call hcall
  have hact := h act (List.mem_map.mpr ⟨_, hp, rfl⟩)
  cases act with
  | assign garbage | copy garbage => cases hcall
  | base act =>
      cases act with
      | thread i act | loop act | handler act => cases hcall
      | erase => exact absurd rfl hact

/-- **An entry with an address** is handed over. -/
theorem Ready.next (h : Ready s i) (hentry : s.addrs[i]? = some e) (haddr : e.ifaAddr ≠ none) :
    ∃ tr t, Run (Fires (step pf ⟨filter, 0, 0⟩)) s tr t ∧ Undestroyed tr ∧ Ready t (i + 1) := by
  obtain ⟨t, hreach, hthere⟩ := h.reach pf filter hentry haddr
  obtain ⟨u, number, hhandOver, hhanded⟩ := hthere.handOver pf filter
  obtain ⟨v, hturn, hready⟩ := hhanded.turn pf filter
  obtain ⟨hrun, hacts⟩ := exec_trace _ _ _ _ hreach
  obtain ⟨hrun', hacts'⟩ := exec_trace _ _ _ _ hhandOver
  obtain ⟨hrun'', hacts''⟩ := exec_trace _ _ _ _ hturn
  refine ⟨_, v, (hrun.append hrun').append hrun'', fun act hact => ?_, hready⟩
  rw [actions_append, actions_append, hacts, hacts', hacts''] at hact
  rintro rfl
  simp [NetworkInterfaces.reach, NetworkInterfaces.handOver, NetworkInterfaces.turn] at hact

end

/-- An object with this filter, just constructed, on a run loop that has nothing else. -/
def fresh (entries : List IfAddrs) (curInterface : NetworkInterface) : State where
  loop := { Messages.State.init 1 with
    msgs := Function.update (fun _ => none) 0 (some {})
    msgCnt := 1 }
  addrs := entries
  p := 0
  curInterface := curInterface

theorem started_fresh (filter : Family) (entries : List IfAddrs) (nif : NetworkInterface) :
    Started ⟨filter, 0, 0⟩ entries (fresh entries nif) where
  loop := ⟨1, [], Messages.State.init 1, .nil, rfl, by simp [Messages.State.init, Phase.msg], rfl⟩
  addrs := rfl
  p := rfl
  assigned := rfl
  thrown := rfl
  crashed := rfl
  detected := rfl

/-! ## What the class promises -/

/-- **What an enumeration does**: it does not fail; the delegate is told of the entries that match,
in order, as far as it has come, and of all of them in the end.  Unless the message is about to be
destroyed, the thread is never stuck, and the loop does not sleep when it is given the message;
and the thread does not go on for ever. -/
structure Works (pf : Platform) (ni : NetworkInterfaces) (entries : List IfAddrs)
    (tr : List (State × Action)) (s : State) : Prop where
  alive : s.crashed = false
  tells : ∃ n, ni.Tells pf (entries.take n) s.detected
  complete : ∀ m, s.loop.msgs ni.msg = some m → m.destroyed = false → ni.Complete s →
    ni.Tells pf entries s.detected
  goesOn : ∀ m, s.loop.msgs ni.msg = some m → m.destroyed = false → GoesOn pf ni s
  ready : s.loop.mutex = none → s.loop.queue ≠ [] →
    s.loop.flag = true ∧ ∀ timed, s.loop.control ≠ .asleep timed
  bounded : ni.ownSteps tr ≤ 9 * entries.length + 1

theorem works_of_addresses {s₀ : State} {tr : List (State × Action)}
    (hentries : ∀ e ∈ entries, e.ifaAddr ≠ none) (hs : ni.Started entries s₀)
    (hrun : Run (Fires (step pf ni)) s₀ tr s) (hquiet : ni.Quiet tr) :
    Works pf ni entries tr s := by
  obtain ⟨phase, h, hle⟩ := inv_of_run False hs hrun hquiet
  obtain ⟨n, htold⟩ := h.told not_false
  have hcrashed : s.crashed = false := by
    by_contra hcontra
    obtain ⟨e, he, hnull⟩ := h.reading.crashed (by simpa using hcontra)
    exact hentries e (List.mem_of_getElem? he) hnull
  refine ⟨hcrashed, ⟨n, htold.tells⟩, fun m hm halive hcomplete => ?_,
    fun m hm halive => h.goesOn hcrashed hm halive, fun hfree hqueue => ?_, by omega⟩
  · obtain ⟨hended, hpending⟩ := hcomplete
    obtain rfl := Option.some.inj (h.thread.symm.trans hended)
    have hend : s.addrs.length ≤ s.p := h.place.2.resolve_right (by simp [h.not_thrown hm halive])
    have hn : n = s.p := htold.idle hpending (hm ▸ rfl)
    have hall : entries.take n = entries := List.take_of_length_le (by
      rw [hn, ← h.reading.length]
      exact hend)
    exact hall ▸ htold.tells
  · obtain ⟨hflag, hawake, -⟩ := h.alone.sound.ready hfree hqueue
    exact ⟨hflag, hawake⟩

/-- On a run loop with nothing else, the thread comes to every entry behind entries with
addresses. -/
theorem exists_ready (pf : Platform) (filter : Family) (nif : NetworkInterface) (i : ℕ)
    (hi : i ≤ entries.length)
    (haddr : ∀ j < i, ∀ e ∈ entries[j]?, e.ifaAddr ≠ none) :
    ∃ tr s, Run (Fires (step pf ⟨filter, 0, 0⟩)) (fresh entries nif) tr s ∧ Undestroyed tr ∧
      Ready s i ∧ ∀ j, i ≤ j → s.addrs[j]? = entries[j]? := by
  induction i with
  | zero =>
      have hrun : step pf ⟨filter, 0, 0⟩ (fresh entries nif) (.base (.handler .run)) = some _ := rfl
      exact ⟨_, _, .single hrun, by simp [Undestroyed, actions],
        ⟨rfl, rfl, rfl, fun h => absurd rfl h, rfl, rfl, rfl, rfl, rfl, rfl, rfl, rfl⟩,
        fun _ _ => rfl⟩
  | succ i ih =>
      obtain ⟨tr, s, hrun, hkept, hready, hsame⟩ := ih (by omega) fun j hj => haddr j (by omega)
      have hentry : s.addrs[i]? = some entries[i] := by
        rw [hsame i (Nat.le_refl i), List.getElem?_eq_getElem (by omega)]
      have hnull := haddr i (Nat.lt_succ_self i) _ (List.getElem?_eq_getElem (by omega))
      obtain ⟨tr', t, hnext, hkept', hready'⟩ := hready.next pf filter hentry hnull
      have hrun' := hrun.append hnext
      obtain ⟨phase, h, -⟩ := inv_of_run True (started_fresh filter entries nif) hrun'
        fun _ _ _ _ _ => trivial
      refine ⟨_, t, hrun', hkept.append hkept', hready', fun j hj => h.reading.unread j ?_⟩
      simpa [State.taken, hready'.p, hready'.assigned] using hj

/-- **When the enumeration works.**  For any list of entries and any filter: in every run of an
object with that filter, with the run loop that it was constructed on, whatever else is on that
loop and in any order of the steps, as long as the destruction of another message does not take a
call of its message out of the queue, the enumeration does what it should exactly when every entry
has an address. -/
theorem works_iff (pf : Platform) (filter : Family) (entries : List IfAddrs) :
    (∀ ni s₀ tr s, NetworkInterfaces.filter ni = filter → ni.Started entries s₀ →
      Run (Fires (step pf ni)) s₀ tr s → ni.Quiet tr → Works pf ni entries tr s) ↔
      ∀ e ∈ entries, e.ifaAddr ≠ none := by
  constructor
  · intro hworks
    have halive : ∀ i, i ≤ entries.length → ∀ j < i, ∀ e ∈ entries[j]?, e.ifaAddr ≠ none := by
      intro i
      induction i with
      | zero => exact fun _ j hj => absurd hj (Nat.not_lt_zero j)
      | succ i ih =>
          intro hi j hj e he hnull
          have hbefore := ih (by omega)
          obtain ⟨tr, s, hrun, hkept, hready, hsame⟩ := exists_ready pf filter
            ⟨[], [], fun _ => 0, .UNKNOWN⟩ i (by omega) hbefore
          obtain rfl | hlt := Nat.eq_or_lt_of_le (Nat.le_of_lt_succ hj)
          · -- the run goes on to the null pointer
            obtain ⟨t, hexec, hcrashed⟩ := hready.crash pf filter
              ((hsame j (Nat.le_refl j)).trans he) hnull
            obtain ⟨hlast, hacts⟩ := exec_trace _ _ _ _ hexec
            have hkept' : Undestroyed (trace (step pf ⟨filter, 0, 0⟩) s reach) := by
              rw [Undestroyed, hacts]
              simp [reach]
            have hcrash := (hworks _ _ _ _ rfl (started_fresh filter entries _)
              (hrun.append hlast) (hkept.append hkept').quiet).alive
            rw [hcrashed] at hcrash
            cases hcrash
          · exact hbefore j hlt e he hnull
    intro e he
    obtain ⟨j, hj, rfl⟩ := List.mem_iff_getElem.mp he
    exact halive entries.length (Nat.le_refl _) j hj _ (List.getElem?_eq_getElem hj)
  · intro hentries ni s₀ tr s _ hs hrun hquiet
    exact works_of_addresses hentries hs hrun hquiet

/-- On a run loop with nothing else, a list of entries with addresses is gone through. -/
theorem exists_complete (pf : Platform) (filter : Family) (nif : NetworkInterface)
    (hentries : ∀ e ∈ entries, e.ifaAddr ≠ none) :
    ∃ tr s, Run (Fires (step pf ⟨filter, 0, 0⟩)) (fresh entries nif) tr s ∧
      Complete ⟨filter, 0, 0⟩ s ∧ Tells ⟨filter, 0, 0⟩ pf entries s.detected := by
  obtain ⟨tr, s, hrun, hkept, hready, -⟩ := exists_ready pf filter nif entries.length
    (Nat.le_refl _) fun j _ e he => hentries e (List.mem_of_getElem? he)
  have hs := started_fresh filter entries nif
  obtain ⟨phase, h, -⟩ := inv_of_run True hs hrun fun _ _ _ _ _ => trivial
  have hloop : s.loop.step (.thread 0 .exit) = some (s.loop.setPhase 0 .ended) := by
    simp only [Messages.State.step, Messages.State.threadStep, hready.threads]
    rfl
  have hlength : s.addrs.length ≤ s.p := by rw [hready.p, h.reading.length]
  have hallowed : allowed ⟨filter, 0, 0⟩ s (.thread 0 .exit) = true := by simp [allowed, hlength]
  have hrun' := hrun.snoc (step_base hready.crashed hallowed hloop)
  have hcomplete : Complete ⟨filter, 0, 0⟩ { s with loop := s.loop.setPhase 0 .ended } := by
    refine ⟨by simp [Messages.State.setPhase, hready.threads], ?_⟩
    rintro ⟨call, hcall, -⟩
    simp [Messages.State.setPhase, Messages.State.pending, hready.control, hready.queue] at hcall
  have hkept' : Undestroyed (tr ++ [(s, .base (.thread 0 .exit))]) :=
    hkept.append (by simp [Undestroyed, actions])
  exact ⟨_, _, hrun', hcomplete,
    (works_of_addresses hentries hs hrun' hkept'.quiet).complete {} hready.msg rfl hcomplete⟩

/-- Linux, as far as the addresses below need it. -/
def linux : Platform where
  saFamily addr :=
    match (addr 0).toNat + 256 * (addr 1).toNat with
    | 2 => .AF_INET
    | 10 => .AF_INET6
    | number => .other number
  inetNtoa a := List.intercalate [46] ((List.ofFn a).map fun b => chars (Nat.toDigits 10 b.toNat))
  inetNtop _ := []

/-- The interfaces `tun0`, which has no address, and `lo`. -/
def tunnelAndLoopback : List IfAddrs :=
  [⟨[116, 117, 110, 48], none⟩, ⟨[108, 111], some LASocket.loopback.addr⟩]

/-- The filter asks for IPv4 interfaces; the first entry has no address, and the delegate is not
told of the second. -/
theorem crashes_without_address : ∃ tr s,
    Run (Fires (step linux ⟨.IPv4, 0, 0⟩)) (fresh tunnelAndLoopback LASocket.loopback) tr s ∧
    s.crashed = true ∧ (∀ act, step linux ⟨.IPv4, 0, 0⟩ s act = none) ∧ s.detected = [] ∧
    (matching ⟨.IPv4, 0, 0⟩ linux tunnelAndLoopback).length = 1 ∧
    ¬ Works linux ⟨.IPv4, 0, 0⟩ tunnelAndLoopback tr s := by
  let s := (exec (step linux ⟨.IPv4, 0, 0⟩) (fresh tunnelAndLoopback LASocket.loopback)
    (.base (.handler .run) :: reach)).get (by rfl)
  have hs : exec (step linux ⟨.IPv4, 0, 0⟩) (fresh tunnelAndLoopback LASocket.loopback)
      (.base (.handler .run) :: reach) = some s := (Option.some_get _).symm
  have hcrashed : s.crashed = true := rfl
  refine ⟨_, s, (exec_trace _ _ _ _ hs).1, hcrashed, fun act => if_pos hcrashed, rfl, by decide,
    fun hworks => ?_⟩
  have halive := hworks.alive
  rw [hcrashed] at halive
  cases halive

end NetworkInterfaces

end Craplib
