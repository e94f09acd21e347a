import Mathlib.Data.List.Forall2
import Craplib.Net.Enumeration

/-!
# What every step of the enumeration keeps

`Inv` follows the entries through the one place where they are handed over: `curInterface` is
written only by a thread that is past the constructor of its `ActiveCall`, and then the message
is neither in the queue nor with the loop; from there until `onCall` it stays what it is.  So the
delegate is told of the entries that match, in order and each once.

* `describes_of_ofIfAddrs` — the constructor takes over the name and the address of its entry.
* `step_leads` — what a step can be.
* `Inv.own`, `Inv.base`, `Inv.assign`, `Inv.copy` — the steps, by who makes them.
* `Inv.step`, `Started.inv` — every step keeps it, and the constructor of the class begins
  with it.
-/

namespace Craplib

open Machine Messages

/-! ## What an entry says -/

/-- The family of the interface that an entry is. -/
def IfAddrs.family (pf : Platform) (e : IfAddrs) : Family :=
  match e.ifaAddr.map pf.saFamily with
  | some .AF_INET => .IPv4
  | some .AF_INET6 => .IPv6
  | _ => .UNKNOWN

/-- How an address of this family is written. -/
def Platform.text (pf : Platform) (family : Family) (addr : SockAddr) : Str :=
  match family with
  | .IPv4 => pf.inetNtoa (sinAddr addr)
  | .IPv6 => pf.inetNtop (sin6Addr addr)
  | _ => []

/-- The interface has the name, the family and the address of the entry. -/
structure NetworkInterface.Describes (pf : Platform) (nif : NetworkInterface) (e : IfAddrs) :
    Prop where
  name : nif.name = e.ifaName
  family : nif.family = e.family pf
  ip : ∀ addr ∈ e.ifaAddr, nif.ip = pf.text nif.family addr
  addr : ∀ addr ∈ e.ifaAddr, SameBytes nif.family nif.addr addr

namespace NetworkInterface

variable {pf : Platform} {garbage : SockAddr} {e e' : IfAddrs} {nif : NetworkInterface}

theorem ofIfAddrs_eq_none : ofIfAddrs pf garbage e = none ↔ e.ifaAddr = none := by
  unfold ofIfAddrs
  cases e.ifaAddr with
  | none => simp
  | some addr => cases h : pf.saFamily addr <;> simp [h]

/-- **The constructor** takes over what the entry says. -/
theorem describes_of_ofIfAddrs (h : ofIfAddrs pf garbage e = some (nif, e')) :
    nif.Describes pf e := by
  unfold ofIfAddrs at h
  obtain ⟨name, _ | addr⟩ := e
  · cases h
  · simp only at h
    cases hfamily : pf.saFamily addr <;> rw [hfamily] at h <;> cases h
    all_goals
      constructor
      · rfl
      · simp [IfAddrs.family, hfamily]
      · simp [Platform.text]
      · simp +contextual [SameBytes, addrSize, swapBytes]

end NetworkInterface

namespace NetworkInterfaces

/-- The family of the entry passes the filter. -/
def matching (ni : NetworkInterfaces) (pf : Platform) (entries : List IfAddrs) : List IfAddrs :=
  entries.filter fun e => Wanted ni.filter (e.family pf)

/-- What has been detected is what these entries say, as far as they match, in order. -/
def Tells (ni : NetworkInterfaces) (pf : Platform) (entries : List IfAddrs)
    (detected : List NetworkInterface) : Prop :=
  List.Forall₂ (NetworkInterface.Describes pf) detected (ni.matching pf entries)

variable {pf : Platform} {ni : NetworkInterfaces} {entries : List IfAddrs}
  {detected : List NetworkInterface} {nif : NetworkInterface} {e : IfAddrs}

theorem Tells.nil : ni.Tells pf [] [] := List.Forall₂.nil

/-- **One call of `onCall`.** -/
theorem Tells.onCall (h : ni.Tells pf entries detected) (hnif : nif.Describes pf e) :
    ni.Tells pf (entries ++ [e]) (detected ++ ni.onCall nif) := by
  have hsingle : List.Forall₂ (NetworkInterface.Describes pf) (ni.onCall nif)
      (ni.matching pf [e]) := by
    unfold NetworkInterfaces.onCall matching
    rw [hnif.family, List.filter_singleton]
    by_cases hwanted : Wanted ni.filter (e.family pf)
    · simpa [hwanted] using hnif
    · simp [hwanted]
  unfold Tells matching
  rw [List.filter_append]
  exact List.rel_append h hsingle

/-! ## What a step can do -/

/-- What a step can be, and where it leads. -/
inductive Leads (pf : Platform) (ni : NetworkInterfaces) (s : State) : Action → State → Prop
  | assign (garbage : SockAddr) {inaddr : IfAddrs}
      (hthread : s.loop.threads[ni.thread]? = some (.inside ni.msg .constructed))
      (hassigned : s.assigned = false) (hentry : s.addrs[s.p]? = some inaddr) :
      Leads pf ni s (.assign garbage) (assign pf s garbage inaddr)
  | copy (garbage : SockAddr) (hcontrol : s.loop.control = .inCall)
      (hcall : s.loop.processedMsg.map Call.msg = some ni.msg) :
      Leads pf ni s (.copy garbage)
        { s with curInterface := (NetworkInterface.mkCopy garbage s.curInterface).2 }
  | base {act : Messages.Action} {loop : Messages.State} (hallowed : ni.allowed s act = true)
      (hstep : s.loop.step act = some loop) : Leads pf ni s (.base act) (ni.follow s act loop)

variable {s t : State} {loop : Messages.State}

theorem step_leads {act : Action} (h : step pf ni s act = some t) :
    s.crashed = false ∧ Leads pf ni s act t := by
  have hcrashed : s.crashed = false := by
    by_contra hcontra
    simp [NetworkInterfaces.step, hcontra] at h
  refine ⟨hcrashed, ?_⟩
  unfold NetworkInterfaces.step at h
  rw [if_neg (Bool.eq_false_iff.mp hcrashed)] at h
  cases act with
  | assign garbage =>
      simp only at h
      split_ifs at h with hat
      obtain ⟨inaddr, hentry, rfl⟩ := Option.map_eq_some_iff.mp h
      exact .assign garbage hat.1 hat.2 hentry
  | copy garbage =>
      simp only at h
      split_ifs at h with hat
      obtain rfl := Option.some.inj h
      exact .copy garbage hat.1 hat.2.2.1
  | base act =>
      simp only at h
      split_ifs at h with hallowed
      obtain ⟨loop, hloop, rfl⟩ := Option.map_eq_some_iff.mp h
      exact .base hallowed hloop

/-- The step of another thread. -/
theorem follow_other {i : ThreadId} (hi : i ≠ ni.thread) (a : ThreadAction) :
    ni.follow s (.thread i a) loop = { s with loop := loop } := by
  cases a <;> simp [follow, hi]

/-- The run loop may tell the delegate. -/
theorem follow_loop (ni : NetworkInterfaces) (s : State) (loop : Messages.State) (a : LoopAction) :
    ∃ detected, ni.follow s (.loop a) loop = { s with loop := loop, detected := detected } := by
  cases a with
  | onCall =>
      simp only [follow]
      split
      · exact ⟨_, rfl⟩
      · exact ⟨s.detected, rfl⟩
  | beginTurn | acquire | wake | release | onTimer | ret | endTurn => exact ⟨s.detected, rfl⟩

/-! ## What every step keeps -/

/-- A call of the message waits for its `onCall`. -/
def Pending (ni : NetworkInterfaces) (s : State) : Prop :=
  ∃ call ∈ s.loop.pending, call.msg = ni.msg

/-- How many entries have been read: those before `p`, and perhaps its own. -/
def State.taken (s : State) : ℕ := s.p + if s.assigned then 1 else 0

/-- One more entry than those before `p` has been handed over. -/
def handed : Phase → ℕ
  | .inside _ stage => if stage.beforePush then 0 else 1
  | _ => 0

/-- What the place of the thread says about its variables. -/
def At (ni : NetworkInterfaces) (s : State) : Phase → Prop
  | .out => s.assigned = false
  | .entering msg => msg = ni.msg ∧ s.assigned = false ∧ s.thrown = false ∧
      s.p < s.addrs.length
  | .inside msg stage => msg = ni.msg ∧ s.thrown = false ∧ s.p < s.addrs.length ∧
      (stage ≠ .constructed → s.assigned = true)
  | .ended => s.assigned = false ∧ (s.addrs.length ≤ s.p ∨ s.thrown = true)

/-- The run loop is in order, and only the thread of the object refers to its message. -/
structure Alone (ni : NetworkInterfaces) (lost : Prop) (loop : Messages.State) : Prop where
  sound : loop.Sound
  owned : loop.handOff.Owned fun msg => msg = ni.msg → lost
  others : ∀ i phase, i ≠ ni.thread → loop.threads[i]? = some phase → phase.msg ≠ some ni.msg

/-- The list is read from the front. -/
structure Reading (entries : List IfAddrs) (s : State) : Prop where
  length : s.addrs.length = entries.length
  unread : ∀ i, s.taken ≤ i → s.addrs[i]? = entries[i]?
  read : ∀ i < s.taken, ∀ e ∈ entries[i]?, e.ifaAddr ≠ none
  crashed : s.crashed = true → ∃ e ∈ entries[s.p]?, e.ifaAddr = none

/-- The first `n` entries have gone through `onCall`, and the next is in `curInterface` if a call
is under way. -/
structure Told (pf : Platform) (ni : NetworkInterfaces) (entries : List IfAddrs) (s : State)
    (phase : Phase) (n : ℕ) : Prop where
  tells : ni.Tells pf (entries.take n) s.detected
  le : n ≤ s.p + handed phase
  pending : ni.Pending s → n + 1 = s.p + handed phase ∧
    ∃ e ∈ entries[n]?, s.curInterface.Describes pf e
  idle : ¬ ni.Pending s → (s.loop.msgs ni.msg).isSome = true → n = s.p + handed phase
  assigned : s.assigned = true → ∀ msg stage, phase = .inside msg stage →
    stage.beforePush = true → ∃ e ∈ entries[s.p]?, s.curInterface.Describes pf e

/-- **What every step keeps**; what has become of the calls of the message is told unless one of
them was lost. -/
structure Inv (pf : Platform) (ni : NetworkInterfaces) (lost : Prop) (entries : List IfAddrs)
    (s : State) (phase : Phase) : Prop where
  thread : s.loop.threads[ni.thread]? = some phase
  alone : ni.Alone lost s.loop
  place : ni.At s phase
  reading : Reading entries s
  told : ¬ lost → ∃ n, Told pf ni entries s phase n
  stopped : s.thrown = true → ∀ m, s.loop.msgs ni.msg = some m → m.destroyed = true

variable {phase phase' : Phase} {n : ℕ} {lost : Prop}

/-! ## The message and the loop -/

/-- While the thread is on its way to the queue, the loop does not have the message. -/
theorem Alone.absent (h : ni.Alone lost s.loop) {stage : Stage}
    (hin : s.loop.threads[ni.thread]? = some (.inside ni.msg stage))
    (hbefore : stage.beforePush = true) : ∀ call ∈ s.loop.handOff.held, call.msg ≠ ni.msg :=
  (h.sound.good.fits ni.thread ni.msg stage hin).absent hbefore

theorem Alone.not_pending (h : ni.Alone lost s.loop) {stage : Stage}
    (hin : s.loop.threads[ni.thread]? = some (.inside ni.msg stage))
    (hbefore : stage.beforePush = true) : ¬ ni.Pending s := by
  rintro ⟨call, hcall, hmsg⟩
  exact h.absent hin hbefore call (s.loop.pending_sublist.subset hcall) hmsg

/-- **A step of the run loop and the threads** leaves the message to the thread of the object. -/
theorem Alone.step (h : ni.Alone lost s.loop) {act : Messages.Action} {loop : Messages.State}
    (hallowed : ni.allowed s act = true) (hstep : s.loop.step act = some loop)
    (hlost : ∀ call ∈ s.loop.loses act, call.msg = ni.msg → lost) : ni.Alone lost loop where
  sound := h.sound.step hstep
  owned := Messages.State.owned_step h.sound h.owned hstep hlost
  others i phase' hne hphase' := by
    by_cases hact : ∃ a, act = .thread i a
    · obtain ⟨a, rfl⟩ := hact
      obtain ⟨phase, phase'', hphase, hthreads, hleads⟩ := Messages.State.threadStep_leads hstep
      have hlen := (List.getElem?_eq_some_iff.mp hphase).1
      rw [hthreads, List.getElem?_set_self hlen] at hphase'
      obtain rfl := Option.some.inj hphase'
      have hbefore := h.others i phase hne hphase
      cases hleads with
      | begin msg => simpa [allowed, hne, Phase.msg] using hallowed
      | refused | giveUp | leave | exit => simp [Phase.msg]
      | enter | setFlag | lockLoop | pushBack | signal | unlockLoop => exact hbefore
    · have hsame : loop.threads[i]? = s.loop.threads[i]? := by
        cases act with
        | thread j a =>
            refine Messages.State.step_other_thread hstep ?_
            rintro rfl
            exact hact ⟨a, rfl⟩
        | loop a | handler a | erase => rw [Messages.State.step_threads hstep (by simp)]
      exact h.others i phase' hne (hsame ▸ hphase')

/-! ## Steps that do not touch the list -/

/-- The loop and the threads move, and the thread of the object hands nothing over. -/
theorem Inv.frame (h : Inv pf ni lost entries s phase) {loop : Messages.State}
    (hthread : loop.threads[ni.thread]? = some phase') (halone : ni.Alone lost loop)
    (hplace : ni.At s phase') (hhanded : handed phase' = handed phase)
    (hbefore : s.assigned = true → ∀ msg stage, phase' = .inside msg stage →
      stage.beforePush = true → ∃ stage', phase = .inside msg stage' ∧ stage'.beforePush = true)
    (hpending : ¬ lost → ni.Pending { s with loop := loop } → ni.Pending s)
    (hidle : ¬ lost → ni.Pending s →
      ni.Pending { s with loop := loop } ∨ loop.msgs ni.msg = none)
    (hsince : ∀ m', loop.msgs ni.msg = some m' → s.loop.Since ni.msg m') :
    Inv pf ni lost entries { s with loop := loop } phase' := by
  refine ⟨hthread, halone, ?_, ⟨h.reading.length, h.reading.unread, h.reading.read,
    h.reading.crashed⟩, fun hkept => ?_, fun hthrown m' hm' => ?_⟩
  · cases phase' <;> exact hplace
  · obtain ⟨n, htold⟩ := h.told hkept
    refine ⟨n, htold.tells, ?_, fun hp => ?_, fun hp halive => ?_,
      fun hassigned msg stage hphase hstage => ?_⟩
    · rw [hhanded]
      exact htold.le
    · rw [hhanded]
      exact htold.pending (hpending hkept hp)
    · rw [hhanded]
      obtain ⟨m', hm'⟩ := Option.isSome_iff_exists.mp halive
      obtain ⟨m, hm, -⟩ := hsince m' hm'
      refine htold.idle (fun hp' => ?_) (hm ▸ rfl)
      rcases hidle hkept hp' with hp' | hgone
      · exact hp hp'
      · rw [hgone] at hm'
        cases hm'
    · obtain ⟨stage', hphase', hstage'⟩ := hbefore hassigned msg stage hphase hstage
      exact htold.assigned hassigned msg stage' hphase' hstage'
  · obtain ⟨m, hm, hmono⟩ := hsince m' hm'
    exact hmono (h.stopped hthrown m hm)

/-- A step that does not concern the thread of the object, nor the calls of its message. -/
theorem Inv.other (h : Inv pf ni lost entries s phase) {act : Messages.Action}
    {loop : Messages.State} (hallowed : ni.allowed s act = true)
    (hstep : s.loop.step act = some loop) (hact : act ≠ .handler (.construct ni.msg))
    (hlost : ∀ call ∈ s.loop.loses act, call.msg = ni.msg → lost)
    (hthread : loop.threads[ni.thread]? = s.loop.threads[ni.thread]?)
    (hpending : ¬ lost → (ni.Pending { s with loop := loop } ↔ ni.Pending s)) :
    Inv pf ni lost entries { s with loop := loop } phase :=
  h.frame (hthread.trans h.thread) (h.alone.step hallowed hstep hlost) h.place rfl
    (fun _ _ stage hphase hstage => ⟨stage, hphase, hstage⟩) (fun hkept => (hpending hkept).mp)
    (fun hkept hp => .inl ((hpending hkept).mpr hp))
    fun _ hm' => Messages.State.step_since hstep hact hm'

/-! ## Steps of the thread of the object -/

theorem Inv.throw (h : Inv pf ni lost entries s .out)
    (hstopped : ∀ m, s.loop.msgs ni.msg = some m → m.destroyed = true) :
    Inv pf ni lost entries { s with thrown := true } .out where
  thread := h.thread
  alone := h.alone
  place := h.place
  reading := ⟨h.reading.length, h.reading.unread, h.reading.read, h.reading.crashed⟩
  told hkept := by
    obtain ⟨n, htold⟩ := h.told hkept
    exact ⟨n, htold.tells, htold.le, htold.pending, htold.idle, htold.assigned⟩
  stopped := fun _ => hstopped

/-- **The entry is handed over.** -/
theorem Inv.pushBack (h : Inv pf ni lost entries s (.inside ni.msg .locked))
    {loop : Messages.State} (hstep : s.loop.step (.thread ni.thread .pushBack) = some loop)
    (hthread : loop.threads[ni.thread]? = some (.inside ni.msg .pushed)) :
    Inv pf ni lost entries { s with loop := loop } (.inside ni.msg .pushed) := by
  obtain ⟨-, hthrown, hlt, hassigned⟩ := h.place
  have hset : s.assigned = true := hassigned (by simp)
  obtain ⟨m, hm, -⟩ := (h.alone.sound.good.fits _ _ _ h.thread).owner
  have hpending : ∃ call ∈ loop.pending, call.msg = ni.msg := by
    have hmoves := (Messages.State.step_advance h.alone.sound.waiting hstep).moves
    rw [Messages.State.label, Messages.State.pushing, h.thread] at hmoves
    generalize s.loop.pending = before at hmoves
    generalize loop.pending = after at hmoves ⊢
    cases hmoves
    exact ⟨_, List.mem_append_right _ (List.mem_singleton_self _), rfl⟩
  refine ⟨hthread, h.alone.step rfl hstep (List.forall_mem_nil _),
    ⟨rfl, hthrown, hlt, fun _ => hset⟩,
    ⟨h.reading.length, h.reading.unread, h.reading.read, h.reading.crashed⟩, fun hkept => ?_, ?_⟩
  · obtain ⟨n, htold⟩ := h.told hkept
    have hn : n = s.p := by
      refine htold.idle (h.alone.not_pending h.thread rfl) ?_
      exact Option.isSome_iff_exists.mpr ⟨m, hm⟩
    have hcur := htold.assigned hset _ _ rfl rfl
    refine ⟨n, htold.tells, ?_, fun _ => ⟨?_, hn ▸ hcur⟩, fun hnot => absurd hpending hnot, ?_⟩
    · exact Nat.le_trans hn.le (Nat.le_add_right _ _)
    · rw [hn]
      rfl
    · rintro - msg stage ⟨⟩ hbefore
      cases hbefore
  · exact fun hcontra => by simp [hthrown] at hcontra

/-- **The thread leaves its `ActiveCall`**, and goes on to the next entry. -/
theorem Inv.leave (h : Inv pf ni lost entries s (.inside ni.msg .called)) {loop : Messages.State}
    (hcrashed : s.crashed = false)
    (hallowed : ni.allowed s (.thread ni.thread .leave) = true)
    (hstep : s.loop.step (.thread ni.thread .leave) = some loop)
    (hthread : loop.threads[ni.thread]? = some .out) :
    Inv pf ni lost entries { s with loop := loop, p := s.p + 1, assigned := false } .out := by
  obtain ⟨-, hthrown, hlt, hassigned⟩ := h.place
  have hset : s.assigned = true := hassigned (by simp)
  have htaken : State.taken { s with loop := loop, p := s.p + 1, assigned := false } = s.taken := by
    simp [State.taken, hset]
  have hpending : loop.pending = s.loop.pending :=
    Messages.State.pending_of_label h.alone.sound hstep rfl
  have hsame : ni.Pending { s with loop := loop, p := s.p + 1, assigned := false } ↔
      ni.Pending s := by
    unfold Pending
    rw [hpending]
  refine ⟨hthread, h.alone.step hallowed hstep (List.forall_mem_nil _), rfl,
    ⟨h.reading.length, ?_, ?_, ?_⟩, fun hkept => ?_, ?_⟩
  · rw [htaken]
    exact h.reading.unread
  · rw [htaken]
    exact h.reading.read
  · intro hcontra
    rw [hcrashed] at hcontra
    cases hcontra
  · obtain ⟨n, htold⟩ := h.told hkept
    refine ⟨n, htold.tells, htold.le, fun hp => htold.pending (hsame.mp hp),
      fun hp halive => ?_, by simp⟩
    obtain ⟨m', hm'⟩ := Option.isSome_iff_exists.mp halive
    obtain ⟨m, hm, -⟩ := Messages.State.step_since hstep (by simp) hm'
    exact htold.idle (fun hp' => hp (hsame.mpr hp')) (hm ▸ rfl)
  · intro hcontra
    rw [hthrown] at hcontra
    cases hcontra

/-- **A step of the thread**, other than the assignment. -/
theorem Inv.own (h : Inv pf ni lost entries s phase) {a : ThreadAction} {loop : Messages.State}
    (hcrashed : s.crashed = false) (hallowed : ni.allowed s (.thread ni.thread a) = true)
    (hstep : s.loop.step (.thread ni.thread a) = some loop) :
    ∃ phase', Inv pf ni lost entries (ni.follow s (.thread ni.thread a) loop) phase' := by
  obtain ⟨phase₀, phase', hphase, hthreads, hleads⟩ := Messages.State.threadStep_leads hstep
  obtain rfl := Option.some.inj (h.thread.symm.trans hphase)
  have hthread : loop.threads[ni.thread]? = some phase' := by
    rw [hthreads, List.getElem?_set_self (List.getElem?_eq_some_iff.mp hphase).1]
  have halone := h.alone.step hallowed hstep (List.forall_mem_nil _)
  have hsince : ∀ m', loop.msgs ni.msg = some m' → s.loop.Since ni.msg m' :=
    fun _ hm' => Messages.State.step_since hstep (by simp) hm'
  -- all but the push leave the calls that wait alone
  have hframe : s.loop.label (.thread ni.thread a) = none → ni.At s phase' →
      handed phase' = handed phase → (s.assigned = true → ∀ msg stage, phase' = .inside msg stage →
        stage.beforePush = true → ∃ stage', phase = .inside msg stage' ∧ stage'.beforePush = true) →
      Inv pf ni lost entries { s with loop := loop } phase' := by
    intro hlabel hplace hhanded hbefore
    have hpending : ni.Pending { s with loop := loop } ↔ ni.Pending s := by
      unfold Pending
      rw [Messages.State.pending_of_label h.alone.sound hstep hlabel]
    exact h.frame hthread halone hplace hhanded hbefore (fun _ => hpending.mp)
      (fun _ hp => .inl (hpending.mpr hp)) hsince
  have hplace := h.place
  refine ⟨phase', ?_⟩
  cases hleads with
  | begin msg =>
      obtain ⟨hmsg, hlt, hthrown⟩ : msg = ni.msg ∧ s.p < s.addrs.length ∧ s.thrown = false := by
        simpa [allowed] using hallowed
      exact hframe rfl ⟨hmsg, hplace, hthrown, hlt⟩ rfl (by simp)
  | refused msg =>
      obtain ⟨hmsgs, m, hm, hdestroyed⟩ := Messages.State.refused_destroyed hstep hphase hthread
      obtain ⟨rfl, hassigned, -, -⟩ := hplace
      have hfollow : ni.follow s (.thread ni.thread .enter) loop =
          { s with loop := loop, thrown := true } := by simp [follow, hthread]
      rw [hfollow]
      refine Inv.throw (hframe rfl hassigned rfl (by simp)) fun m' hm' => ?_
      obtain rfl := Option.some.inj (hm.symm.trans ((congrFun hmsgs _).symm.trans hm'))
      exact hdestroyed
  | enter msg =>
      obtain ⟨rfl, hassigned, hthrown, hlt⟩ := hplace
      have hfollow : ni.follow s (.thread ni.thread .enter) loop = { s with loop := loop } := by
        simp [follow, hthread]
      rw [hfollow]
      refine hframe rfl ⟨rfl, hthrown, hlt, fun hne => absurd rfl hne⟩ rfl fun hset => ?_
      simp [hassigned] at hset
  | setFlag msg =>
      obtain ⟨rfl, hthrown, hlt, -⟩ := hplace
      have hassigned : s.assigned = true := by simpa [allowed] using hallowed
      exact hframe rfl ⟨rfl, hthrown, hlt, fun _ => hassigned⟩ rfl
        fun _ _ _ heq _ => ⟨_, by rw [(Phase.inside.inj heq).1], rfl⟩
  | lockLoop msg =>
      obtain ⟨rfl, hthrown, hlt, hassigned⟩ := hplace
      exact hframe rfl ⟨rfl, hthrown, hlt, fun _ => hassigned (by simp)⟩ rfl
        fun _ _ _ heq _ => ⟨_, by rw [(Phase.inside.inj heq).1], rfl⟩
  | pushBack msg =>
      obtain ⟨rfl, -⟩ := hplace
      exact h.pushBack hstep hthread
  | signal msg =>
      obtain ⟨rfl, hthrown, hlt, hassigned⟩ := hplace
      refine hframe rfl ⟨rfl, hthrown, hlt, fun _ => hassigned (by simp)⟩ rfl ?_
      rintro - msg stage ⟨⟩ hbefore
      cases hbefore
  | unlockLoop msg =>
      obtain ⟨rfl, hthrown, hlt, hassigned⟩ := hplace
      refine hframe rfl ⟨rfl, hthrown, hlt, fun _ => hassigned (by simp)⟩ rfl ?_
      rintro - msg stage ⟨⟩ hbefore
      cases hbefore
  | giveUp msg =>
      have hat : s.loop.threads[ni.thread]? = some (.inside ni.msg .called) := by
        simpa [allowed] using hallowed
      rw [hphase] at hat
      cases hat
  | leave msg =>
      obtain ⟨rfl, -⟩ := hplace
      have hfollow : ni.follow s (.thread ni.thread .leave) loop =
          { s with loop := loop, p := s.p + 1, assigned := false } := by simp [follow]
      rw [hfollow]
      exact h.leave hcrashed hallowed hstep hthread
  | exit =>
      have hend : s.addrs.length ≤ s.p ∨ s.thrown = true := by simpa [allowed] using hallowed
      exact hframe rfl ⟨hplace, hend⟩ rfl (by simp)

/-! ## Steps of the loop, of the program and of the other threads -/

/-- What happens to the calls that wait is not about the message of the object. -/
def Elsewhere (ni : NetworkInterfaces) (pending : List Call) : Mailbox.Action Call → Prop
  | .push call | .take call => call.msg ≠ ni.msg
  | .withdraw gone => ∀ call : Call, call.msg = ni.msg → gone call = false
  | .cut kept => ∀ call ∈ pending.drop kept, call.msg ≠ ni.msg

theorem pending_iff {act : Messages.Action} {loop : Messages.State} (h : s.loop.Sound)
    (hstep : s.loop.step act = some loop)
    (hlabel : ∀ b, s.loop.label act = some b → ni.Elsewhere s.loop.pending b) :
    ni.Pending { s with loop := loop } ↔ ni.Pending s := by
  have hmoves := (Messages.State.step_advance h.waiting hstep).moves
  change (∃ call ∈ loop.pending, call.msg = ni.msg) ↔ ∃ call ∈ s.loop.pending, call.msg = ni.msg
  generalize s.loop.pending = before at hmoves hlabel ⊢
  generalize loop.pending = after at hmoves ⊢
  cases hb : s.loop.label act with
  | none =>
      rw [hb] at hmoves
      rw [show after = before from hmoves]
  | some b =>
      have helse := hlabel b hb
      rw [hb] at hmoves
      cases hmoves with
      | push _ letter =>
          have hne : letter.msg ≠ ni.msg := helse
          simp [or_and_right, exists_or, hne]
      | take letter rest =>
          have hne : letter.msg ≠ ni.msg := helse
          simp [hne]
      | withdraw _ gone =>
          simp only [List.mem_filter]
          constructor
          · rintro ⟨call, ⟨hcall, -⟩, hmsg⟩
            exact ⟨call, hcall, hmsg⟩
          · rintro ⟨call, hcall, hmsg⟩
            exact ⟨call, ⟨hcall, by rw [helse call hmsg]; rfl⟩, hmsg⟩
      | cut _ kept =>
          constructor
          · rintro ⟨call, hcall, hmsg⟩
            exact ⟨call, List.mem_of_mem_take hcall, hmsg⟩
          · rintro ⟨call, hcall, hmsg⟩
            rw [← List.take_append_drop kept before, List.mem_append] at hcall
            refine ⟨call, hcall.resolve_right fun hdropped => ?_, hmsg⟩
            exact helse call hdropped hmsg

/-- **The delegate is told.** -/
theorem Inv.onCall (h : Inv pf ni lost entries s phase) {loop : Messages.State}
    (hstep : s.loop.step (.loop .onCall) = some loop)
    (hcall : s.loop.processedMsg.map Call.msg = some ni.msg) :
    Inv pf ni lost entries
      { s with loop := loop, detected := s.detected ++ ni.onCall s.curInterface } phase := by
  obtain ⟨call, hprocessed, hmsg⟩ := Option.map_eq_some_iff.mp hcall
  obtain ⟨hbefore, hothers⟩ := Messages.State.pending_onCall h.alone.sound hstep hprocessed
  have hpending : ni.Pending s := ⟨call, hbefore ▸ List.mem_cons_self, hmsg⟩
  have hnot : ¬ ∃ other ∈ loop.pending, other.msg = ni.msg := by
    rintro ⟨other, hother, heq⟩
    exact hothers other hother (heq.trans hmsg.symm)
  refine ⟨(Messages.State.step_threads hstep (by simp)) ▸ h.thread,
    h.alone.step rfl hstep (List.forall_mem_nil _), ?_,
    ⟨h.reading.length, h.reading.unread, h.reading.read, h.reading.crashed⟩,
    fun hkept => ?_, ?_⟩
  · have hplace := h.place
    cases phase <;> exact hplace
  · obtain ⟨n, htold⟩ := h.told hkept
    obtain ⟨hn, e, he, hdescribes⟩ := htold.pending hpending
    refine ⟨n + 1, ?_, hn.le, fun hp => absurd hp hnot, fun _ _ => hn, htold.assigned⟩
    rw [List.take_add_one, Option.mem_def.mp he]
    exact htold.tells.onCall hdescribes
  · intro hthrown m' hm'
    obtain ⟨m, hm, hmono⟩ := Messages.State.step_since hstep (by simp) hm'
    exact hmono (h.stopped hthrown m hm)

/-- The destructor has joined the thread, and destroys the message. -/
theorem Inv.destroy (h : Inv pf ni lost entries s phase) {loop : Messages.State}
    (hallowed : ni.allowed s (.handler (.destroy ni.msg)) = true)
    (hstep : s.loop.step (.handler (.destroy ni.msg)) = some loop) :
    Inv pf ni lost entries { s with loop := loop } phase := by
  have hmoves := (Messages.State.step_advance h.alone.sound.waiting hstep).moves
  have hthreads := Messages.State.step_threads hstep (by simp)
  have hgone : loop.msgs ni.msg = none := by
    obtain ⟨-, -, hhandler⟩ := Messages.State.step_handler hstep
    simp only [Messages.State.handlerStep] at hhandler
    split_ifs at hhandler
    cases hhandler
    exact Function.update_self _ _ _
  refine h.frame (hthreads ▸ h.thread) (h.alone.step hallowed hstep (List.forall_mem_nil _))
    h.place rfl
    (fun _ _ stage hphase hstage => ⟨stage, hphase, hstage⟩) ?_ (fun _ _ => .inr hgone)
    fun m' hm' => by simp [hgone] at hm'
  rintro - ⟨call, hcall, hmsg⟩
  refine ⟨call, ?_, hmsg⟩
  change call ∈ loop.pending at hcall
  rw [Messages.State.label] at hmoves
  generalize s.loop.pending = before at hmoves ⊢
  generalize loop.pending = after at hmoves hcall
  cases hmoves
  exact (List.mem_filter.mp hcall).1

/-- **A step of the run loop, of a thread, or of the program.** -/
theorem Inv.base (h : Inv pf ni lost entries s phase) {act : Messages.Action}
    {loop : Messages.State} (hcrashed : s.crashed = false) (hallowed : ni.allowed s act = true)
    (hstep : s.loop.step act = some loop)
    (hlost : ∀ call ∈ s.loop.loses act, call.msg = ni.msg → lost) :
    ∃ phase', Inv pf ni lost entries (ni.follow s act loop) phase' := by
  cases act with
  | thread i a =>
      by_cases hi : i = ni.thread
      · subst hi
        exact h.own hcrashed hallowed hstep
      · rw [follow_other hi a]
        refine ⟨phase, h.other hallowed hstep (by simp) hlost
          (Messages.State.step_other_thread hstep (Ne.symm hi))
          (fun _ => pending_iff h.alone.sound hstep fun b hb => ?_)⟩
        cases a with
        | pushBack =>
            obtain ⟨phase₀, phase', hphase, -, hleads⟩ := Messages.State.threadStep_leads hstep
            cases hleads with
            | pushBack msg =>
                rw [Messages.State.label, Messages.State.pushing, hphase] at hb
                obtain rfl := Option.some.inj hb
                exact fun hmsg => h.alone.others i _ hi hphase (congrArg some hmsg)
        | begin | enter | setFlag | lockLoop | signal | unlockLoop | leave | exit => cases hb
  | loop a =>
      have hthreads := Messages.State.step_threads hstep (by simp)
      by_cases hcall : a = .onCall ∧ s.loop.processedMsg.map Call.msg = some ni.msg
      · obtain ⟨rfl, hcall⟩ := hcall
        have hfollow : ni.follow s (.loop .onCall) loop =
            { s with loop := loop, detected := s.detected ++ ni.onCall s.curInterface } :=
          if_pos hcall
        rw [hfollow]
        exact ⟨phase, h.onCall hstep hcall⟩
      · have hfollow : ni.follow s (.loop a) loop = { s with loop := loop } := by
          cases a with
          | onCall => exact if_neg fun heq => hcall ⟨rfl, heq⟩
          | beginTurn | acquire | wake | release | onTimer | ret | endTurn => rfl
        rw [hfollow]
        refine ⟨phase, h.other hallowed hstep (by simp) hlost (by rw [hthreads])
          (fun _ => pending_iff h.alone.sound hstep fun b hb => ?_)⟩
        cases a with
        | onCall =>
            obtain ⟨call, hprocessed, rfl⟩ := Option.map_eq_some_iff.mp hb
            exact fun hmsg => hcall ⟨rfl, by rw [hprocessed, Option.map_some, hmsg]⟩
        | beginTurn | acquire | wake | release | onTimer | ret | endTurn => cases hb
  | handler a =>
      have hthreads := Messages.State.step_threads hstep (by simp)
      refine ⟨phase, ?_⟩
      by_cases hdestroy : a = .destroy ni.msg
      · subst hdestroy
        exact h.destroy hallowed hstep
      · have hconstruct : Messages.Action.handler a ≠ .handler (.construct ni.msg) := by
          rintro ⟨⟩
          simp [allowed] at hallowed
        refine h.other hallowed hstep hconstruct hlost (by rw [hthreads])
          (fun _ => pending_iff h.alone.sound hstep fun b hb => ?_)
        cases a with
        | destroy msg =>
            obtain rfl := Option.some.inj hb
            intro call hmsg
            have hne : call.msg ≠ msg := fun heq => hdestroy (by rw [← heq, hmsg])
            simpa using hne
        | construct | requestTermination | join | stop | run => cases hb
  | erase =>
      have hthreads := Messages.State.step_threads hstep (by simp)
      refine ⟨phase, h.other hallowed hstep (by simp) hlost (by rw [hthreads])
        fun hkept => pending_iff h.alone.sound hstep fun b hb => ?_⟩
      obtain ⟨newEnd, hnewEnd, rfl⟩ := Option.map_eq_some_iff.mp hb
      intro call hcall hmsg
      refine hkept (hlost call ?_ hmsg)
      rw [Messages.State.loses, hnewEnd]
      exact hcall

/-! ## The assignment and the copies, and every step -/

/-- **The assignment**, or the crash. -/
theorem Inv.assign (h : Inv pf ni lost entries s (.inside ni.msg .constructed)) {garbage : SockAddr}
    {inaddr : IfAddrs} (hcrashed : s.crashed = false) (hassigned : s.assigned = false)
    (hentry : s.addrs[s.p]? = some inaddr) :
    Inv pf ni lost entries (NetworkInterfaces.assign pf s garbage inaddr)
      (.inside ni.msg .constructed) := by
  unfold NetworkInterfaces.assign
  obtain ⟨-, hthrown, hlt, -⟩ := h.place
  have htaken : s.taken = s.p := by simp [State.taken, hassigned]
  have hsame : entries[s.p]? = some inaddr := by
    rw [← h.reading.unread s.p htaken.le, hentry]
  cases hof : NetworkInterface.ofIfAddrs pf garbage inaddr with
  | none =>
      refine ⟨h.thread, h.alone, h.place, ⟨h.reading.length, h.reading.unread, h.reading.read,
        fun _ => ⟨inaddr, hsame, NetworkInterface.ofIfAddrs_eq_none.mp hof⟩⟩, fun hkept => ?_,
        h.stopped⟩
      obtain ⟨n, htold⟩ := h.told hkept
      exact ⟨n, htold.tells, htold.le, htold.pending, htold.idle, htold.assigned⟩
  | some out =>
      obtain ⟨nif, inaddr'⟩ := out
      have hpending : ¬ ni.Pending s := h.alone.not_pending h.thread rfl
      have htaken' : State.taken { s with
          addrs := s.addrs.set s.p inaddr', curInterface := nif, assigned := true } = s.p + 1 := rfl
      refine ⟨h.thread, h.alone, ⟨rfl, hthrown, ?_, fun _ => rfl⟩, ⟨?_, fun i hi => ?_,
        fun i hi e he => ?_, ?_⟩, fun hkept => ?_, h.stopped⟩
      · rw [List.length_set]
        exact hlt
      · rw [List.length_set]
        exact h.reading.length
      · rw [htaken'] at hi
        rw [List.getElem?_set_ne (by omega)]
        exact h.reading.unread i (by omega)
      · rw [htaken'] at hi
        by_cases heq : i = s.p
        · subst heq
          obtain rfl := Option.some.inj (hsame.symm.trans he)
          intro hnull
          rw [NetworkInterface.ofIfAddrs_eq_none.mpr hnull] at hof
          cases hof
        · exact h.reading.read i (by omega) e he
      · intro hcontra
        rw [hcrashed] at hcontra
        cases hcontra
      · obtain ⟨n, htold⟩ := h.told hkept
        exact ⟨n, htold.tells, htold.le, fun hp => absurd hp hpending, htold.idle,
          fun _ _ _ _ _ => ⟨inaddr, hsame, NetworkInterface.describes_of_ofIfAddrs hof⟩⟩

/-- **A copy that the delegate makes**: nobody reads `curInterface` before it is assigned
again. -/
theorem Inv.copy (h : Inv pf ni lost entries s phase) {nif : NetworkInterface}
    (hcontrol : s.loop.control = .inCall)
    (hcall : s.loop.processedMsg.map Call.msg = some ni.msg) :
    Inv pf ni lost entries { s with curInterface := nif } phase := by
  obtain ⟨call, hprocessed, hmsg⟩ := Option.map_eq_some_iff.mp hcall
  have hpending : ¬ ni.Pending s := by
    rintro ⟨other, hother, heq⟩
    exact h.alone.sound.not_pending_in_call hcontrol hprocessed other hother (heq.trans hmsg.symm)
  have hheld : call ∈ s.loop.handOff.held := by
    refine List.mem_append_left _ (Option.mem_toList.mpr ?_)
    change s.loop.active = some call
    rw [Messages.State.active, hcontrol, hprocessed]
  refine ⟨h.thread, h.alone, ?_, ⟨h.reading.length, h.reading.unread, h.reading.read,
    h.reading.crashed⟩, fun hkept => ?_, h.stopped⟩
  · have hplace := h.place
    cases phase <;> exact hplace
  · obtain ⟨n, htold⟩ := h.told hkept
    refine ⟨n, htold.tells, htold.le, fun hp => absurd hp hpending, htold.idle, ?_⟩
    rintro - msg stage rfl hbefore
    obtain rfl : msg = ni.msg := h.place.1
    exact absurd hmsg (h.alone.absent h.thread hbefore call hheld)

/-- The calls that get lost in a step. -/
def State.loses (s : State) : Action → List Call
  | .base act => s.loop.loses act
  | .assign _ | .copy _ => []

theorem Inv.step (h : Inv pf ni lost entries s phase) {act : Action}
    (hstep : step pf ni s act = some t)
    (hlost : ∀ call ∈ s.loses act, call.msg = ni.msg → lost) :
    ∃ phase', Inv pf ni lost entries t phase' := by
  obtain ⟨hcrashed, hleads⟩ := step_leads hstep
  cases hleads with
  | assign garbage hthread hassigned hentry =>
      obtain rfl := Option.some.inj (h.thread.symm.trans hthread)
      exact ⟨_, h.assign hcrashed hassigned hentry⟩
  | copy garbage hcontrol hcall => exact ⟨phase, h.copy hcontrol hcall⟩
  | base hallowed hloop => exact h.base hcrashed hallowed hloop hlost

theorem Started.inv (h : ni.Started entries s) : Inv pf ni lost entries s .out := by
  obtain ⟨threads, tr, before, hrun, hthread, hunknown, hconstruct⟩ := h.loop
  have hthreads := Messages.State.step_threads hconstruct (by simp)
  have hsound : before.Sound := Messages.State.sound_of_run hrun
  have howned : s.loop.handOff.Owned fun _ => True := by
    have hboth : before.Sound ∧ before.handOff.Owned fun _ => True :=
      hrun.invariant (I := fun s => s.Sound ∧ s.handOff.Owned fun _ => True)
        (fun _ _ _ hs hstep =>
          ⟨hs.1.step hstep, Messages.State.owned_step hs.1 hs.2 hstep fun _ _ => trivial⟩)
        ⟨Messages.State.sound_init threads, Messages.State.owned_init threads⟩
    exact Messages.State.owned_step hsound hboth.2 hconstruct fun _ _ => trivial
  obtain ⟨hfresh, hnew⟩ : before.msgs ni.msg = none ∧ s.loop.msgs ni.msg = some {} := by
    obtain ⟨-, -, hhandler⟩ := Messages.State.step_handler hconstruct
    simp only [Messages.State.handlerStep] at hhandler
    split at hhandler
    · next hnone =>
        rw [← Option.some.inj hhandler]
        exact ⟨hnone, Function.update_self _ _ _⟩
    · cases hhandler
  -- whatever was lost before, the condition of the new message is false
  have hflag : ∀ msg m, s.loop.msgs msg = some m → m.flag = true →
      s.loop.handOff.Raised msg ∨ (msg = ni.msg → lost) := by
    intro msg m hm hup
    refine .inr fun heq => ?_
    rw [heq, hnew, Option.some.injEq] at hm
    rw [← hm] at hup
    cases hup
  have hpending : ¬ ni.Pending s := by
    rintro ⟨call, hcall, hmsg⟩
    rw [Messages.State.pending_of_label hsound hconstruct rfl] at hcall
    obtain ⟨m, hm, -⟩ := hsound.good.shut call (before.pending_sublist.subset hcall)
    change before.msgs call.msg = some m at hm
    rw [hmsg, hfresh] at hm
    cases hm
  have htaken : s.taken = 0 := by simp [State.taken, h.p, h.assigned]
  refine ⟨hthreads ▸ hthread, ⟨hsound.step hconstruct, ⟨howned.loop, howned.mutex, hflag⟩,
    fun i phase _ hphase => ?_⟩, h.assigned,
    ⟨by rw [h.addrs], fun i _ => by rw [h.addrs], fun i hi => ?_, fun hcrashed => ?_⟩,
    fun _ => ⟨0, ?_, Nat.zero_le _, fun hp => absurd hp hpending, fun _ _ => ?_, by simp⟩,
    fun hthrown => ?_⟩
  · rw [hthreads] at hphase
    exact hunknown phase (List.mem_of_getElem? hphase)
  · rw [htaken] at hi
    exact absurd hi (Nat.not_lt_zero i)
  · rw [h.crashed] at hcrashed
    cases hcrashed
  · rw [h.detected]
    exact .nil
  · rw [h.p]
    rfl
  · rw [h.thrown] at hthrown
    cases hthrown

end NetworkInterfaces

end Craplib
