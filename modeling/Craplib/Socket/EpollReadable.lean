import Craplib.Socket.EpollProgress

/-!
# Readable data is dropped at a disconnect

`SocketWorker::run` looks at the hangup bits of an event first and goes on to the next
event when it finds one (`continue`), so an event that also says `EPOLLIN` never reaches
the deque `read`; and `onCall` drains `err` before `read`, so a socket with a hangup event
is told to disconnect and deregistered before any of its readable events is looked at.
The bytes that arrived together with the peer's close are lost.

`nothing_dropped_iff` says exactly when none are: when no registered socket that is
readable in the batch has an event with `EPOLLERR`, `EPOLLRDHUP` or `EPOLLHUP` in it.  It
also says that the dispatch of a batch comes to its end, so that "gets a call in the
dispatch" means something.

* One way, `Awaiting` is what a readable socket keeps until its read turn comes.
* The other way, `quiet_disconnect` is a run of the disconnect loop in which the callbacks
  do nothing.
-/

namespace Craplib

namespace Epoll

open Machine

namespace SocketWorker

theorem not_mem_err_popFront (w : SocketWorker) {a : SocketPtr} (loop : Callback)
    (h : a ∉ w.err) : a ∉ (w.popFront loop).err := by
  cases loop with
  | onDisconnect => exact fun hin => h (List.mem_of_mem_tail hin)
  | _ => exact h

theorem mem_read_popFront (w : SocketWorker) {a cur : SocketPtr} {rest : List SocketPtr}
    {loop : Callback} (hdeque : w.deque loop = cur :: rest) (h : a ∈ w.read) (hne : a ≠ cur) :
    a ∈ (w.popFront loop).read := by
  cases loop with
  | onCanRead =>
      change w.read = cur :: rest at hdeque
      rw [hdeque] at h
      rw [popFront, hdeque, List.tail_cons]
      exact (List.mem_cons.mp h).resolve_left hne
  | _ => exact h

end SocketWorker

namespace State

/-! ## The property -/

/-- The socket `i` is registered, and an event of the batch says that it is readable. -/
def Readable (s : State) (batch : Batch) (i : ℕ) : Prop :=
  ∃ a, s.RegisteredAt a i ∧ ∃ ev ∈ batch.events, ev.ptr = a ∧ ev.has EPOLLIN = true

/-- The socket `i` is registered, and an event of the batch says that it hung up. -/
def HungUp (s : State) (batch : Batch) (i : ℕ) : Prop :=
  ∃ a, s.RegisteredAt a i ∧ ∃ ev ∈ batch.events, ev.ptr = a ∧ ev.hangup = true

/-- `onCanRead`, or the end of the socket, with no `onDisconnect` before it. -/
def Served (es : List Event) : Prop :=
  ∃ before e after, es = before ++ e :: after ∧ (e = .called .onCanRead ∨ e = .destroyed) ∧
    .called .onDisconnect ∉ before

/-- **No readable data is dropped.**  In the dispatch of the batch, whatever is done in
the callbacks and between the batch and the callbacks, every readable socket is served:
by the time the dispatch is over, and before it gets any `onDisconnect`. -/
def NothingDropped (s : State) (batch : Batch) : Prop :=
  ∀ s', s.collect batch = some s' → ∀ tr t, Dispatch s' tr t → ∀ i, s.Readable batch i →
    t.pending = false ∨ .called .onDisconnect ∈ history i tr → Served (history i tr)

theorem Served.append {es : List Event} (h : Served es) (es' : List Event) :
    Served (es ++ es') := by
  obtain ⟨before, e, after, rfl, he, hbefore⟩ := h
  exact ⟨before, e, after ++ es', by rw [List.append_assoc, List.cons_append], he, hbefore⟩

theorem not_served_onDisconnect : ¬ Served [.called .onDisconnect] := by
  rintro ⟨before, e, after, hsplit, hkind, hbefore⟩
  rcases List.singleton_eq_append_iff.mp hsplit with ⟨rfl, hcons⟩ | ⟨hone, -⟩
  · cases hcons
    rcases hkind with hkind | hkind <;> cases hkind
  · rw [hone] at hbefore
    exact hbefore (List.mem_singleton_self _)

theorem served_singleton {e : Event} (h : e = .called .onCanRead ∨ e = .destroyed) :
    Served [e] :=
  ⟨[], e, [], rfl, h, by simp⟩

variable {s t : State} {w : SocketWorker}

/-! ## A readable socket that has not hung up is served -/

/-- The event of a turn of `onCall`. -/
theorem event_turn (h : s.turn = some t) :
    s.event .turn = match t.control with
      | .calling _ cb cur => (s.sockets.serial cur).map (·, .called cb)
      | _ => none := by
  have hstep : s.step .turn = some t := h
  simp only [event, calls, hstep, Option.map_some]
  cases t.control <;> rfl

/-- A call of another socket is no event about `i`. -/
theorem eventAbout_turn_other (h : s.turn = some t) {n : ℕ} {cb : Callback}
    {cur a : SocketPtr} {i : ℕ} (hcontrol : t.control = .calling n cb cur)
    (hserial : s.sockets.serial a = some i) (hne : cur ≠ a) :
    eventAbout event i s .turn = none := by
  rw [Option.eq_none_iff_forall_ne_some]
  intro e he
  rw [eventAbout_eq_some, event_turn h, hcontrol] at he
  obtain ⟨j, hj, hji⟩ := Option.map_eq_some_iff.mp he
  cases hji
  exact hne (Arena.serial_injective hj hserial)

/-- The socket `i` at `a` is registered, and a turn of the read loop is still to come for
it, with no turn of the disconnect loop before. -/
structure Awaiting (s : State) (a : SocketPtr) (i : ℕ) : Prop where
  registered : s.RegisteredAt a i
  queued : ∃ w, s.sta = some w ∧ w.called = true ∧ a ∉ w.err ∧ a ∈ w.read
  loop : ∀ n loop, s.control.loop? = some (n, loop) → loop ≠ .onCanWrite
  quiet : ∀ n, s.control ≠ .calling n .onDisconnect a

variable {a : SocketPtr} {i : ℕ}

/-- What the worker says about `a`. -/
theorem Awaiting.worker (h : s.Awaiting a i) (hw : s.sta = some w) :
    w.called = true ∧ a ∉ w.err ∧ a ∈ w.read ∧ a ∈ w.clients := by
  obtain ⟨w', hw', hcalled, herr, hread⟩ := h.queued
  obtain rfl : w = w' := Option.some.inj (hw.symm.trans hw')
  have hclient : a ∈ w.clients := by
    rw [← clients_some hw]
    exact h.registered.2
  exact ⟨hcalled, herr, hread, hclient⟩

/-- The loop calls another socket. -/
theorem Awaiting.call (h : s.Awaiting a i) {n : ℕ} {loop : Callback} {cur : SocketPtr}
    {rest : List SocketPtr} (hw : s.sta = some w) (hloop : loop ≠ .onCanWrite)
    (hdeque : w.deque loop = cur :: rest) (hcur : cur ≠ a) :
    Awaiting { s with sta := some (w.popFront loop), control := .calling n loop cur } a i := by
  obtain ⟨hcalled, herr, hread, hclient⟩ := h.worker hw
  refine ⟨⟨h.registered.1, ?_⟩, ⟨w.popFront loop, rfl, ?_, ?_, ?_⟩, ?_, ?_⟩
  · rw [clients_some rfl, SocketWorker.clients_popFront]
    exact hclient
  · rw [SocketWorker.called_popFront]
    exact hcalled
  · exact w.not_mem_err_popFront loop herr
  · exact w.mem_read_popFront hdeque hread (Ne.symm hcur)
  · rintro m loop' ⟨rfl, rfl⟩
    exact hloop
  · rintro m ⟨rfl, rfl, rfl⟩
    exact hcur rfl

/-- The loop passes over a socket that is not registered, so not over `a`. -/
theorem Awaiting.pass (h : s.Awaiting a i) {loop : Callback} {cur : SocketPtr}
    {rest : List SocketPtr} (hw : s.sta = some w) (hdeque : w.deque loop = cur :: rest)
    (hmem : cur ∉ w.clients) :
    Awaiting { s with sta := some ((w.popFront loop).afterCall loop cur) } a i := by
  obtain ⟨hcalled, herr, hread, hclient⟩ := h.worker hw
  have hcur : a ≠ cur := by
    rintro rfl
    exact hmem hclient
  refine ⟨⟨h.registered.1, ?_⟩, ⟨_, rfl, ?_, ?_, ?_⟩, h.loop, h.quiet⟩
  · rw [clients_some rfl]
    cases loop with
    | onDisconnect => exact Finset.mem_erase.mpr ⟨hcur, hclient⟩
    | _ => exact hclient
  · rw [SocketWorker.called_afterCall, SocketWorker.called_popFront]
    exact hcalled
  · have hpop := w.not_mem_err_popFront loop herr
    cases loop <;> exact hpop
  · have hpop := w.mem_read_popFront hdeque hread hcur
    cases loop <;> exact hpop

/-- The next loop begins: the read loop does not end while `a` is in its deque. -/
theorem Awaiting.nextLoop (h : s.Awaiting a i) {n : ℕ} {loop loop' : Callback}
    (hw : s.sta = some w) (hdeque : w.deque loop = []) (hnext : loop.next = some loop') :
    Awaiting { s with control := .draining n loop' } a i := by
  obtain ⟨-, -, hread, -⟩ := h.worker hw
  refine ⟨h.registered, h.queued, ?_, fun m hm => by cases hm⟩
  rintro m l ⟨rfl, rfl⟩
  rintro rfl
  cases loop with
  | onDisconnect => cases hnext
  | onCanRead => exact List.not_mem_nil ((show w.read = [] from hdeque) ▸ hread)
  | onCanWrite => cases hnext

theorem Awaiting.turn (h : s.Awaiting a i) (hstep : s.turn = some t) :
    (t.Awaiting a i ∧ eventAbout event i s .turn = none) ∨
      eventAbout event i s .turn = some (.called .onCanRead) := by
  have hevent := event_turn hstep
  obtain ⟨n, loop, w, hcontrol, hw, -, hcase⟩ := turn_cases hstep
  obtain ⟨-, herr, -, -⟩ := h.worker hw
  have hloop : loop ≠ .onCanWrite := h.loop n loop (by rw [hcontrol, Control.loop?])
  rcases hcase with ⟨cur, rest, hdeque, -, rfl⟩ | ⟨cur, rest, hdeque, hmem, rfl⟩ |
    ⟨loop', hdeque, hnext, rfl⟩ | ⟨hdeque, hnext, rfl⟩
  · -- a call: of `a` itself only in the read loop
    by_cases hcur : cur = a
    · subst hcur
      right
      rw [eventAbout_eq_some, hevent]
      cases loop with
      | onDisconnect =>
          have hin : cur ∈ w.deque .onDisconnect := by
            rw [hdeque]
            exact List.mem_cons_self
          exact absurd hin herr
      | onCanRead => simp only [h.registered.1, Option.map_some]
      | onCanWrite => exact absurd rfl hloop
    · exact .inl ⟨h.call hw hloop hdeque hcur,
        eventAbout_turn_other hstep rfl h.registered.1 hcur⟩
  · refine .inl ⟨h.pass hw hdeque hmem, ?_⟩
    unfold eventAbout
    rw [hevent, hcontrol]
    rfl
  · refine .inl ⟨h.nextLoop hw hdeque hnext, ?_⟩
    unfold eventAbout
    rw [hevent]
    rfl
  · -- `onCall` does not return before the write loop
    cases loop with
    | onCanWrite => exact absurd rfl hloop
    | _ => cases hnext

theorem Awaiting.ret (h : s.Awaiting a i) (hstep : s.ret = some t) : t.Awaiting a i := by
  obtain ⟨n, loop, cur, w, hcontrol, hw, -, rfl⟩ := ret_cases hstep
  obtain ⟨hcalled, herr, hread, hclient⟩ := h.worker hw
  refine ⟨⟨h.registered.1, ?_⟩, ⟨_, rfl, ?_, ?_, ?_⟩, ?_, fun m hm => by cases hm⟩
  · rw [clients_some rfl]
    cases loop with
    | onDisconnect =>
        refine Finset.mem_erase.mpr ⟨?_, hclient⟩
        rintro rfl
        exact h.quiet n hcontrol
    | _ => exact hclient
  · rw [SocketWorker.called_afterCall]
    exact hcalled
  · cases loop <;> exact herr
  · cases loop <;> exact hread
  · rintro m loop' ⟨rfl, rfl⟩
    exact h.loop n loop (by rw [hcontrol, Control.loop?])

theorem Awaiting.construct (hok : s.Ok) (h : s.Awaiting a i) {a' : SocketPtr}
    {registers : Option Bool} (hstep : s.construct a' registers = some t) : t.Awaiting a i := by
  obtain ⟨w, hw, -⟩ := h.queued
  obtain ⟨hcalled, herr, hread, hclient⟩ := h.worker hw
  obtain ⟨hcontrol, hnew, -⟩ := construct_frame hstep
  have hne : a ≠ a' := by
    rintro rfl
    have hfree := Arena.serial_eq_none.mpr (Arena.free_of_construct hnew)
    rw [h.registered.1] at hfree
    cases hfree
  have hserial : t.sockets.serial a = some i := by
    rw [Arena.serial_of_construct hnew, if_neg hne]
    exact h.registered.1
  refine ⟨⟨hserial, ?_⟩, ?_, ?_, ?_⟩
  · rcases construct_worker hok hw hstep with ht | ⟨added, ht⟩
    · rw [clients_some ht]
      exact hclient
    · rw [clients_some ht]
      exact SocketWorker.subset_clients_registerSocket w a' added hclient
  · rcases construct_worker hok hw hstep with ht | ⟨added, ht⟩
    · exact ⟨w, ht, hcalled, herr, hread⟩
    · have hdeque := fun loop => SocketWorker.deque_registerSocket w loop a' added
      refine ⟨_, ht, ?_, ?_, ?_⟩
      · rw [SocketWorker.called_registerSocket]
        exact hcalled
      · change a ∉ (w.registerSocket a' added).deque .onDisconnect
        rw [hdeque]
        exact herr
      · change a ∈ (w.registerSocket a' added).deque .onCanRead
        rw [hdeque]
        exact hread
  · rw [hcontrol]
    exact h.loop
  · rw [hcontrol]
    exact h.quiet

theorem Awaiting.destroy (hok : s.Ok) (h : s.Awaiting a i) {a' : SocketPtr} (hne : a ≠ a')
    (hstep : s.destroy a' = some t) : t.Awaiting a i := by
  obtain ⟨w, hw, -⟩ := h.queued
  obtain ⟨hcalled, herr, hread, hclient⟩ := h.worker hw
  obtain ⟨hcontrol, hsockets, -⟩ := destroy_frame hstep
  have hserial : t.sockets.serial a = some i := by
    rw [hsockets, Arena.serial_destroy, if_neg hne]
    exact h.registered.1
  have ht := destroy_worker hok hw hstep hserial
  refine ⟨⟨hserial, ?_⟩, ⟨_, ht, hcalled, herr, hread⟩, ?_, ?_⟩
  · rw [clients_some ht]
    exact Finset.mem_erase.mpr ⟨hne, hclient⟩
  · rw [hcontrol]
    exact h.loop
  · rw [hcontrol]
    exact h.quiet

/-- A step leaves the socket waiting and does nothing to it, or calls its `onCanRead`, or
destroys it. -/
theorem Awaiting.step (hok : s.Ok) (h : s.Awaiting a i) {act : Action}
    (hstep : s.step act = some t) :
    (t.Awaiting a i ∧ eventAbout event i s act = none) ∨
      ∃ e, eventAbout event i s act = some e ∧ (e = .called .onCanRead ∨ e = .destroyed) := by
  cases act with
  | collect batch =>
      obtain ⟨w, hw, hfree, -⟩ := collect_cases hstep
      obtain ⟨hcalled, -⟩ := h.worker hw
      rw [hcalled] at hfree
      cases hfree
  | dispatch =>
      obtain ⟨w, -, -, -, rfl⟩ := dispatch_cases hstep
      refine .inl ⟨⟨h.registered, h.queued, ?_, fun m hm => by cases hm⟩, rfl⟩
      rintro m loop ⟨rfl, rfl⟩
      exact Callback.noConfusion
  | turn =>
      rcases h.turn hstep with hwait | hcall
      · exact .inl hwait
      · exact .inr ⟨_, hcall, .inl rfl⟩
  | ret => exact .inl ⟨h.ret hstep, rfl⟩
  | construct a' registers => exact .inl ⟨h.construct hok hstep, rfl⟩
  | destroy a' =>
      by_cases hne : a = a'
      · subst hne
        refine .inr ⟨.destroyed, ?_, .inr rfl⟩
        rw [eventAbout_eq_some]
        exact Option.map_eq_some_iff.mpr ⟨i, h.registered.1, rfl⟩
      · refine .inl ⟨h.destroy hok hne hstep, ?_⟩
        rw [Option.eq_none_iff_forall_ne_some]
        intro e he
        obtain ⟨j, hj, hji⟩ := Option.map_eq_some_iff.mp (eventAbout_eq_some.mp he)
        cases hji
        exact hne (Arena.serial_injective h.registered.1 hj)

/-- A waiting socket keeps waiting until it is served. -/
theorem Awaiting.run {tr : List (State × Action)} (hrun : Runs s tr t) (hok : s.Ok)
    (h : s.Awaiting a i) :
    Served (history i tr) ∨ (t.Awaiting a i ∧ history i tr = []) := by
  induction hrun with
  | nil => exact .inr ⟨h, rfl⟩
  | @snoc tr t u act hrun hstep ih =>
      unfold history
      rw [history_snoc]
      rcases ih with hserved | ⟨hwait, hempty⟩
      · exact .inl (hserved.append _)
      · change Machine.history event i tr = [] at hempty
        rw [hempty, List.nil_append]
        rcases hwait.step (hok.run hrun) hstep with ⟨hwait', hnone⟩ | ⟨e, he, hkind⟩
        · rw [hnone]
          exact .inr ⟨hwait', rfl⟩
        · rw [he]
          exact .inl (served_singleton hkind)

/-! ## A socket that has hung up is disconnected first -/

/-- When the callbacks do nothing, the disconnect loop comes to every registered socket in
its deque. -/
theorem quiet_disconnect {n : ℕ} (hcontrol : s.control = .draining n .onDisconnect)
    (hw : s.sta = some w) (hserial : w.serial = n) (hcalled : w.called = true)
    (hreg : s.RegisteredAt a i) (herr : a ∈ w.err) :
    ∃ tr t, Dispatch s tr t ∧ history i tr = [.called .onDisconnect] := by
  generalize hes : w.err = es at herr
  induction es generalizing s w with
  | nil => cases herr
  | cons cur rest ih =>
      have hpending : s.pending = true := (pending_some hw).trans hcalled
      have hclient := hreg.2
      rw [clients_some hw] at hclient
      have hturn := turn_eq hcontrol hw hserial
      rw [show w.deque .onDisconnect = cur :: rest from hes] at hturn
      by_cases hcur : cur = a
      · -- its own turn
        subst hcur
        simp only [if_pos hclient] at hturn
        refine ⟨[(s, .turn)], _, .cons hpending hturn ⟨.nil, by simp⟩, ?_⟩
        have hevent : eventAbout event i s .turn = some (.called .onDisconnect) := by
          rw [eventAbout_eq_some, event_turn hturn]
          exact Option.map_eq_some_iff.mpr ⟨i, hreg.1, rfl⟩
        unfold history
        rw [history_cons, hevent]
        rfl
      · -- the turn of another socket leaves the worker without it
        let w' := (w.popFront .onDisconnect).afterCall .onDisconnect cur
        have hw' : w'.err = rest := by
          change w.err.tail = rest
          rw [hes, List.tail_cons]
        have hreg' : RegisteredAt { s with sta := some w', control := .draining n .onDisconnect }
            a i := by
          refine ⟨hreg.1, ?_⟩
          rw [clients_some rfl]
          exact Finset.mem_erase.mpr ⟨Ne.symm hcur, hclient⟩
        obtain ⟨tr, t, hdispatch, hhistory⟩ := ih (w := w') rfl rfl hserial hcalled hreg' hw'
          ((List.mem_cons.mp herr).resolve_left (Ne.symm hcur))
        by_cases hmem : cur ∈ w.clients
        · simp only [if_pos hmem] at hturn
          have hret := ret_eq (s := { s with
            sta := some (w.popFront .onDisconnect), control := .calling n .onDisconnect cur })
            rfl rfl hserial
          refine ⟨(s, .turn) :: (_, .ret) :: tr, t,
            .cons hpending hturn (.cons hcalled hret hdispatch), ?_⟩
          unfold history
          rw [history_cons, history_cons, eventAbout_turn_other hturn rfl hreg.1 hcur]
          exact hhistory
        · simp only [if_neg hmem] at hturn
          have hevent : eventAbout event i s .turn = none := by
            unfold eventAbout
            rw [event_turn hturn]
            simp only [hcontrol, Option.bind_none]
          rw [← hcontrol] at hdispatch
          refine ⟨(s, .turn) :: tr, t, .cons hpending hturn hdispatch, ?_⟩
          unfold history
          rw [history_cons, hevent]
          exact hhistory

/-! ## Both ways together -/

/-- A readable socket that has not hung up waits for its read turn from the beginning. -/
theorem awaiting_of_collect {s' : State} {batch : Batch} (hok : s.Ok) (hidle : s.control = .idle)
    (hcollect : s.collect batch = some s') (hreadable : s.Readable batch i)
    (hhang : ¬ s.HungUp batch i) : ∃ a, s'.Awaiting a i := by
  obtain ⟨a, hreg, ev, hev, hptr, hin⟩ := hreadable
  obtain ⟨w, hw, hfree, rfl⟩ := collect_cases hcollect
  have hempty := hok.emptied w hw hfree
  have hregs := hreg.2
  rw [clients_some hw] at hregs
  refine ⟨a, ⟨hreg.1, ?_⟩, ⟨_, rfl, rfl, ?_, ?_⟩, ?_, ?_⟩
  · rw [clients_some rfl, SocketWorker.clients_run]
    exact hregs
  · intro herr
    change a ∈ (w.run batch).deque .onDisconnect at herr
    rw [SocketWorker.deque_run, hempty, List.nil_append] at herr
    obtain ⟨ev', hev', hptr'⟩ := List.mem_map.mp herr
    obtain ⟨hmem, hbits⟩ := List.mem_filter.mp hev'
    exact hhang ⟨a, hreg, ev', hmem, hptr', hbits⟩
  · change a ∈ (w.run batch).deque .onCanRead
    rw [SocketWorker.deque_run]
    refine List.mem_append_right _ (List.mem_map.mpr ⟨ev, List.mem_filter.mpr ⟨hev, ?_⟩, hptr⟩)
    have hno : ev.hangup = false :=
      Bool.eq_false_iff.mpr fun hbits => hhang ⟨a, hreg, ev, hev, hptr, hbits⟩
    simp only [SocketWorker.goesTo, hno, hin, Bool.not_false, Bool.true_or, Bool.true_and]
  · intro n loop hloop
    rw [hidle] at hloop
    cases hloop
  · intro n hcalling
    rw [hidle] at hcalling
    cases hcalling

/-- A readable socket that has hung up gets `onDisconnect` first, when the callbacks do
nothing. -/
theorem disconnected_first {s' : State} {batch : Batch} (hidle : s.control = .idle)
    (hcollect : s.collect batch = some s') (hhang : s.HungUp batch i) :
    ∃ tr t, Dispatch s' tr t ∧ history i tr = [.called .onDisconnect] := by
  obtain ⟨a, hreg, ev, hev, hptr, hbits⟩ := hhang
  obtain ⟨w, hw, -, rfl⟩ := collect_cases hcollect
  have herr : a ∈ (w.run batch).err := by
    change a ∈ (w.run batch).deque .onDisconnect
    rw [SocketWorker.deque_run]
    exact List.mem_append_right _
      (List.mem_map.mpr ⟨ev, List.mem_filter.mpr ⟨hev, hbits⟩, hptr⟩)
  have hclient := hreg.2
  rw [clients_some hw] at hclient
  let s₁ : State := { s with
    sta := some (w.run batch), control := .draining (w.run batch).serial .onDisconnect }
  have hreg₁ : s₁.RegisteredAt a i := by
    refine ⟨hreg.1, ?_⟩
    rw [clients_some rfl, SocketWorker.clients_run]
    exact hclient
  obtain ⟨tr, t, hdispatch, hhistory⟩ :=
    quiet_disconnect (s := s₁) (w := w.run batch) rfl rfl rfl rfl hreg₁ herr
  have hstep : State.step { s with sta := some (w.run batch) } .dispatch = some s₁ :=
    if_pos ⟨hidle, rfl⟩
  refine ⟨(_, .dispatch) :: tr, t, .cons rfl hstep hdispatch, ?_⟩
  unfold history
  rw [history_cons]
  exact hhistory

/-- **When no readable data is dropped.**  In a reachable state in which the worker waits
for events and the loop thread is outside `onCall`: the next batch is dispatched without
dropping readable data exactly when no registered socket that is readable in it has also
hung up in it.  Either way the dispatch ends. -/
theorem nothing_dropped_iff {tr₀ : List (State × Action)} (hreach : Runs .init tr₀ s)
    (hidle : s.control = .idle) (hwaits : s.pending = false) (batch : Batch) :
    (s.NothingDropped batch ↔ ∀ i, s.Readable batch i → ¬ s.HungUp batch i) ∧
      s.DispatchEnds batch := by
  refine ⟨⟨fun h i hreadable hhang => ?_, fun h => ?_⟩, dispatchEnds hreach hidle batch⟩
  · have hregistered := hreadable
    obtain ⟨a, hreg, -⟩ := hregistered
    cases hsta : s.sta with
    | none =>
        have hclient := hreg.2
        rw [clients_none hsta] at hclient
        exact absurd hclient (Finset.notMem_empty a)
    | some w =>
        rw [pending_some hsta] at hwaits
        have hcollect : s.collect batch = some { s with sta := some (w.run batch) } := by
          simp only [collect, hsta, hwaits, Option.bind_eq_bind, Option.bind_some,
            Bool.false_eq_true, if_false]
        obtain ⟨tr, t, hdispatch, hhistory⟩ := disconnected_first hidle hcollect hhang
        have hserved := h _ hcollect tr t hdispatch i hreadable (.inr (by rw [hhistory]; simp))
        rw [hhistory] at hserved
        exact not_served_onDisconnect hserved
  · intro s' hcollect tr t hdispatch i hreadable hover
    have hok := Ok.init.run hreach
    obtain ⟨a, hawait⟩ := awaiting_of_collect hok hidle hcollect hreadable (h i hreadable)
    rcases hawait.run hdispatch.1 (hok.collect hcollect) with hserved | ⟨hwait, hempty⟩
    · exact hserved
    · rcases hover with hfree | hdisc
      · obtain ⟨w, hw, hcalled, -⟩ := hwait.queued
        rw [pending_some hw, hcalled] at hfree
        cases hfree
      · rw [hempty] at hdisc
        cases hdisc

/-- One registered socket, and a batch in which it is readable and nobody has hung up. -/
theorem nothing_dropped_iff_example : ∃ tr₀ s, Runs .init tr₀ s ∧
    actions tr₀ = [.construct 1 (some true)] ∧
    (s.NothingDropped ⟨[⟨EPOLLIN, 1⟩], by decide, by decide⟩ ↔
      ∀ i, s.Readable ⟨[⟨EPOLLIN, 1⟩], by decide, by decide⟩ i →
        ¬ s.HungUp ⟨[⟨EPOLLIN, 1⟩], by decide, by decide⟩ i) ∧
    s.DispatchEnds ⟨[⟨EPOLLIN, 1⟩], by decide, by decide⟩ := by
  let s := (exec State.step .init [.construct 1 (some true)]).get (by decide)
  obtain ⟨tr₀, hrun, hacts⟩ := exec_run State.step .init [.construct 1 (some true)] s rfl
  exact ⟨tr₀, s, hrun, hacts, nothing_dropped_iff hrun rfl rfl _⟩

/-- A peer that answers and closes: the one event says both, the dispatch makes one call,
`onDisconnect`, and the bytes are not read. -/
theorem answer_and_close_dropped : ∃ s s' t,
    exec State.step .init [.construct 1 (some true)] = some s ∧
    s.collect ⟨[⟨EPOLLIN ||| EPOLLRDHUP, 1⟩], by decide, by decide⟩ = some s' ∧
    exec State.step s' [.dispatch, .turn, .ret, .turn, .turn, .turn] = some t ∧
    t.pending = false ∧
    history 0 (trace State.step s' [.dispatch, .turn, .ret, .turn, .turn, .turn]) =
      [.called .onDisconnect] ∧
    ¬ s.NothingDropped ⟨[⟨EPOLLIN ||| EPOLLRDHUP, 1⟩], by decide, by decide⟩ := by
  let s := (exec State.step .init [.construct 1 (some true)]).get (by decide)
  let s' := (s.collect ⟨[⟨EPOLLIN ||| EPOLLRDHUP, 1⟩], by decide, by decide⟩).get (by decide)
  let acts : List Action := [.dispatch, .turn, .ret, .turn, .turn, .turn]
  let t := (exec State.step s' acts).get (by decide)
  have hexec : exec State.step s' acts = some t := (Option.some_get _).symm
  have hhistory : history 0 (trace State.step s' acts) = [.called .onDisconnect] := by decide
  refine ⟨s, s', t, (Option.some_get _).symm, (Option.some_get _).symm, hexec, by decide,
    hhistory, fun h => ?_⟩
  have hreadable : s.Readable ⟨[⟨EPOLLIN ||| EPOLLRDHUP, 1⟩], by decide, by decide⟩ 0 :=
    ⟨1, ⟨by decide, by decide⟩, _, List.mem_singleton_self _, rfl, by decide⟩
  have hdispatch : Dispatch s' (trace State.step s' acts) t :=
    ⟨(exec_trace State.step s' acts t hexec).1, by decide⟩
  have hserved := h s' (Option.some_get _).symm _ t hdispatch 0 hreadable (.inl (by decide))
  rw [hhistory] at hserved
  exact not_served_onDisconnect hserved

end State

end Epoll

end Craplib
