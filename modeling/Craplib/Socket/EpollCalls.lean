import Craplib.Socket.EpollReadable
import Craplib.Socket.EpollRegistered

/-!
# What a dispatch of the epoll worker owes to whom

The events of a batch are sorted into the deques by what they say, and `onCall` goes through
the deques while its callbacks construct and destroy sockets.  `batch_calls` says what comes of
it for a socket that is registered when the batch is collected: it gets the calls that are due
to it, in the order of the loops and one for each event, until it is destroyed.  One that has
hung up is due its `onDisconnect` and nothing else, however many events say so.

What carries it is `Progress`: what has been called and what the deques still hold for the
socket is what was due.  `Progress.construct` speaks of what any constructor does, so that the
kqueue worker can use it too.
-/

namespace Craplib

namespace Epoll

open Machine

/-- The calls that a batch owes to the registered socket at `a`. -/
def Batch.due (batch : Batch) (a : SocketPtr) : List Callback :=
  if batch.events.any fun ev => ev.ptr = a && ev.hangup then [.onDisconnect]
  else
    List.replicate (batch.events.countP fun ev =>
      ev.ptr = a && (ev.has EPOLLIN || ev.has EPOLLPRI)) .onCanRead ++
    List.replicate (batch.events.countP fun ev => ev.ptr = a && ev.has EPOLLOUT) .onCanWrite

/-! ## What the deques hold for a socket -/

namespace SocketWorker

/-- The calls that the deques hold for a registered socket. -/
def owed (w : SocketWorker) (a : SocketPtr) : List Callback :=
  if a ∈ w.err then [.onDisconnect]
  else
    List.replicate (w.read.count a) .onCanRead ++ List.replicate (w.write.count a) .onCanWrite

variable {w w' : SocketWorker} {loop : Callback} {a cur : SocketPtr}

/-- A batch that is sorted into empty deques. -/
theorem owed_run (hempty : ∀ loop, w.deque loop = []) (batch : Batch) (a : SocketPtr) :
    (w.run batch).owed a = batch.due a := by
  have hdeque : ∀ loop, (w.run batch).deque loop =
      (batch.events.filter (goesTo loop)).map EpollEvent.ptr := by
    intro loop
    rw [deque_run, hempty, List.nil_append]
  have hcount : ∀ loop, ((w.run batch).deque loop).count a =
      batch.events.countP fun ev => ev.ptr = a && goesTo loop ev := by
    intro loop
    rw [hdeque, List.count, List.countP_map, List.countP_filter]
    rfl
  have herr : a ∈ (w.run batch).err ↔
      (batch.events.any fun ev => ev.ptr = a && ev.hangup) = true := by
    change a ∈ (w.run batch).deque .onDisconnect ↔ _
    rw [hdeque]
    simp [goesTo, and_assoc, and_comm (a := EpollEvent.ptr _ = a)]
  unfold owed Batch.due
  by_cases hhang : (batch.events.any fun ev => ev.ptr = a && ev.hangup) = true
  · rw [if_pos (herr.mpr hhang), if_pos hhang]
  · rw [if_neg (mt herr.mp hhang), if_neg hhang]
    -- no event of the socket says that it has hung up
    have hquiet : ∀ ev ∈ batch.events, ev.ptr = a → ev.hangup = false := by
      simpa using hhang
    have hread : (w.run batch).read.count a = batch.events.countP fun ev =>
        ev.ptr = a && (ev.has EPOLLIN || ev.has EPOLLPRI) := by
      refine (hcount .onCanRead).trans (List.countP_congr fun ev hev => ?_)
      by_cases hptr : ev.ptr = a
      · simp [goesTo, hptr, hquiet ev hev hptr]
      · simp [hptr]
    have hwrite : (w.run batch).write.count a = batch.events.countP fun ev =>
        ev.ptr = a && ev.has EPOLLOUT := by
      refine (hcount .onCanWrite).trans (List.countP_congr fun ev hev => ?_)
      by_cases hptr : ev.ptr = a
      · simp [goesTo, hptr, hquiet ev hev hptr]
      · simp [hptr]
    rw [hread, hwrite]

theorem owed_congr (h : ∀ loop, w'.deque loop = w.deque loop) : w'.owed a = w.owed a := by
  have herr : w'.err = w.err := h .onDisconnect
  have hread : w'.read = w.read := h .onCanRead
  have hwrite : w'.write = w.write := h .onCanWrite
  rw [owed, owed, herr, hread, hwrite]

theorem owed_eq_nil (h : ∀ loop, w.deque loop = []) : w.owed a = [] := by
  have herr : w.err = [] := h .onDisconnect
  have hread : w.read = [] := h .onCanRead
  have hwrite : w.write = [] := h .onCanWrite
  simp [owed, herr, hread, hwrite]

/-- Another socket is at the front of the deque. -/
theorem owed_popFront_other {rest : List SocketPtr} (hdeque : w.deque loop = cur :: rest)
    (hne : cur ≠ a) : (w.popFront loop).owed a = w.owed a := by
  cases loop with
  | onDisconnect =>
      have herr : w.err = cur :: rest := hdeque
      simp [owed, popFront, herr, Ne.symm hne]
  | onCanRead =>
      have hread : w.read = cur :: rest := hdeque
      simp [owed, popFront, hread, hne]
  | onCanWrite =>
      have hwrite : w.write = cur :: rest := hdeque
      simp [owed, popFront, hwrite, hne]

/-- The socket itself is there, in the loop that has come to it. -/
theorem owed_popFront_self {rest : List SocketPtr} (hdeque : w.deque loop = a :: rest)
    (hloop : loop ≠ .onDisconnect)
    (hbefore : ∀ loop', loop'.rank < loop.rank → w.deque loop' = []) :
    w.owed a = loop :: (w.popFront loop).owed a := by
  have herr : w.err = [] := by
    apply hbefore .onDisconnect
    cases loop with
    | onDisconnect => exact absurd rfl hloop
    | onCanRead | onCanWrite => decide
  cases loop with
  | onDisconnect => exact absurd rfl hloop
  | onCanRead =>
      have hread : w.read = a :: rest := hdeque
      simp [owed, popFront, herr, hread, List.replicate_succ]
  | onCanWrite =>
      have hread : w.read = [] := hbefore .onCanRead (by decide)
      have hwrite : w.write = a :: rest := hdeque
      simp [owed, popFront, herr, hread, hwrite, List.replicate_succ]

end SocketWorker

namespace State

variable {s t : State} {w w' : SocketWorker} {a : SocketPtr} {i : ℕ} {act : Action}

/-- The socket `i` at `a` is registered, and its `onDisconnect` is not running. -/
structure Waiting (s : State) (a : SocketPtr) (i : ℕ) (w : SocketWorker) : Prop where
  serial : s.sockets.serial a = some i
  worker : s.sta = some w
  client : a ∈ w.clients
  quiet : ∀ n, s.control ≠ .calling n .onDisconnect a

/-- **How far the calls of a socket have come**, of those that were `due`, when `es` is what
has happened to it. -/
inductive Progress (due : List Callback) (a : SocketPtr) (i : ℕ) (es : List Event) (s : State) :
    Prop
  /-- What has been called and what the deques hold is what was due. -/
  | waiting (made : List Callback) (w : SocketWorker) (waits : s.Waiting a i w)
      (left : made ++ w.owed a = due) (history : es = made.map .called)
  /-- It has been told of its disconnect. -/
  | told (serial : s.sockets.serial a = some i) (disconnected : s.Disconnected i)
      (history : es = due.map .called)
  /-- It has been destroyed. -/
  | gone (made : List Callback) (front : made <+: due) (born : i < s.sockets.born)
      (serial : ∀ b, s.sockets.serial b ≠ some i) (history : es = made.map .called ++ [.destroyed])

variable {due : List Callback} {es : List Event}

/-! ## One step -/

/-- **A turn of `onCall`**: the socket at the front of the deque is another one, or it is called. -/
theorem Waiting.turn (hok : s.Ok) (h : s.Waiting a i w) (hstep : s.turn = some t) :
    (∃ w', t.Waiting a i w' ∧ ∃ now : List Callback, w.owed a = now ++ w'.owed a ∧
      (eventAbout event i s .turn).toList = now.map .called) ∨
    (w.owed a = [.onDisconnect] ∧ s.event .turn = some (i, .called .onDisconnect)) := by
  have hevent := event_turn hstep
  obtain ⟨n, loop, w₀, hcontrol, hw, hserial, hcase⟩ := turn_cases hstep
  obtain rfl : w = w₀ := Option.some.inj (h.worker.symm.trans hw)
  have hbefore := (hok.drained w loop hw (by rw [hcontrol, hserial, Control.loop?])).2
  have hquiet : (∀ n' cb cur, t.control ≠ .calling n' cb cur) →
      eventAbout event i s .turn = none := by
    intro hcalls
    rw [eventAbout, hevent]
    cases ht : t.control with
    | calling n' cb cur => exact absurd ht (hcalls n' cb cur)
    | idle | draining _ _ => rfl
  rcases hcase with ⟨cur, rest, hdeque, -, rfl⟩ | ⟨cur, rest, hdeque, hmem, rfl⟩ |
    ⟨loop', hdeque, hnext, rfl⟩ | ⟨hdeque, hnext, rfl⟩
  · by_cases hcur : cur = a
    · subst hcur
      have hnow : s.event .turn = some (i, .called loop) := by
        rw [hevent]
        exact Option.map_eq_some_iff.mpr ⟨i, h.serial, rfl⟩
      by_cases hloop : loop = .onDisconnect
      · subst hloop
        refine .inr ⟨if_pos ?_, hnow⟩
        have herr : w.err = cur :: rest := hdeque
        rw [herr]
        exact List.mem_cons_self
      · refine .inl ⟨w.popFront loop, ⟨h.serial, rfl, ?_, ?_⟩, [loop], ?_, ?_⟩
        · rw [SocketWorker.clients_popFront]
          exact h.client
        · rintro n' hcalling
          cases hcalling
          exact hloop rfl
        · exact SocketWorker.owed_popFront_self hdeque hloop hbefore
        · rw [eventAbout_eq_some.mpr hnow]
          rfl
    · refine .inl ⟨w.popFront loop, ⟨h.serial, rfl, ?_, ?_⟩, [], ?_, ?_⟩
      · rw [SocketWorker.clients_popFront]
        exact h.client
      · rintro n' hcalling
        cases hcalling
        exact hcur rfl
      · exact (SocketWorker.owed_popFront_other hdeque hcur).symm
      · rw [eventAbout_turn_other hstep rfl h.serial hcur]
        rfl
  · -- the loop passes over a socket that is not registered
    have hcur : cur ≠ a := by
      rintro rfl
      exact hmem h.client
    refine .inl ⟨(w.popFront loop).afterCall loop cur, ⟨h.serial, rfl, ?_, h.quiet⟩, [], ?_, ?_⟩
    · cases loop with
      | onDisconnect => exact Finset.mem_erase.mpr ⟨Ne.symm hcur, h.client⟩
      | onCanRead | onCanWrite => exact h.client
    · have hdeques := fun loop' => SocketWorker.deque_afterCall (w.popFront loop) loop loop' cur
      rw [List.nil_append, SocketWorker.owed_congr hdeques,
        SocketWorker.owed_popFront_other hdeque hcur]
    · rw [hquiet fun n' cb cur' hcalling => by rw [hcontrol] at hcalling; cases hcalling]
      rfl
  · refine .inl ⟨w, ⟨h.serial, hw, h.client, fun n' hin => by cases hin⟩, [], rfl, ?_⟩
    rw [hquiet fun n' cb cur hin => by cases hin]
    rfl
  · refine .inl ⟨{ w with called := false },
      ⟨h.serial, rfl, h.client, fun n' hin => by cases hin⟩, [], ?_, ?_⟩
    · exact (SocketWorker.owed_congr fun loop => by cases loop <;> rfl).symm
    · rw [hquiet fun n' cb cur hin => by cases hin]
      rfl

/-- **A constructor**, of either backend: it may register the new socket, and leaves the deques
alone. -/
theorem Progress.construct {a' : SocketPtr} (h : Progress due a i es s)
    (hnew : s.sockets.construct a' () = some t.sockets) (hcontrol : t.control = s.control)
    (hclients : t.clients ⊆ insert a' s.clients)
    (hworker : ∀ w, s.sta = some w → ∃ w', t.sta = some w' ∧ w.clients ⊆ w'.clients ∧
      ∀ loop, w'.deque loop = w.deque loop) : Progress due a i es t := by
  have hfree := Arena.serial_eq_none.mpr (Arena.free_of_construct hnew)
  have hborn := Arena.born_of_construct hnew
  have hold : ∀ b j, s.sockets.serial b = some j → t.sockets.serial b = some j := by
    intro b j hj
    rw [Arena.serial_of_construct hnew, if_neg]
    · exact hj
    · rintro rfl
      rw [hfree] at hj
      cases hj
  have hnewest : ∀ b j, t.sockets.serial b = some j → j < s.sockets.born →
      b ≠ a' ∧ s.sockets.serial b = some j := by
    intro b j hj hlt
    rw [Arena.serial_of_construct hnew] at hj
    split_ifs at hj with hba
    · cases hj
      exact absurd hlt (Nat.lt_irrefl _)
    · exact ⟨hba, hj⟩
  cases h with
  | waiting made w waits left history =>
      obtain ⟨w', hw', hsub, hdeques⟩ := hworker w waits.worker
      refine .waiting made w' ⟨hold a i waits.serial, hw', hsub waits.client, ?_⟩ ?_ history
      · rw [hcontrol]
        exact waits.quiet
      · rw [SocketWorker.owed_congr hdeques]
        exact left
  | told serial disconnected history =>
      refine .told (hold a i serial) ⟨?_, fun b hb => ?_⟩ history
      · exact Nat.lt_of_lt_of_le disconnected.born (hborn ▸ Nat.le_succ _)
      · obtain ⟨hne, hbefore⟩ := hnewest b i hb.1 disconnected.born
        rw [hcontrol]
        exact disconnected.gone b ⟨hbefore, (Finset.mem_insert.mp (hclients hb.2)).resolve_left hne⟩
  | gone made front born serial history =>
      refine .gone made front (hborn ▸ Nat.lt_succ_of_lt born) (fun b hb => ?_) history
      exact serial b (hnewest b i hb born).2

/-- A destruction is the destructor's. -/
theorem event_destroyed (h : s.event act = some (i, .destroyed)) :
    ∃ a, act = .destroy a ∧ s.sockets.serial a = some i := by
  cases act with
  | destroy a =>
      obtain ⟨j, hj, heq⟩ := Option.map_eq_some_iff.mp h
      obtain ⟨rfl, -⟩ := Prod.mk.inj heq
      exact ⟨a, rfl, hj⟩
  | _ =>
      simp only [event] at h
      obtain ⟨c, -, h⟩ := Option.bind_eq_some_iff.mp h
      obtain ⟨j, -, heq⟩ := Option.map_eq_some_iff.mp h
      cases heq

/-- To a socket that is gone nothing happens. -/
theorem eventAbout_gone (hstep : s.step act = some t) (hgone : ∀ b, s.sockets.serial b ≠ some i) :
    eventAbout event i s act = none := by
  rw [Option.eq_none_iff_forall_ne_some]
  intro e he
  rw [eventAbout_eq_some] at he
  cases e with
  | called cb =>
      obtain ⟨n, cur, -, hreg, -⟩ := event_called hstep he
      exact hgone cur hreg.1
  | destroyed =>
      obtain ⟨b, -, hb⟩ := event_destroyed he
      exact hgone b hb

/-- To one that has been told of its disconnect nothing happens but its end. -/
theorem Disconnected.eventAbout (h : s.Disconnected i) (hstep : s.step act = some t)
    (hserial : s.sockets.serial a = some i) (hact : act ≠ .destroy a) :
    eventAbout event i s act = none := by
  rw [Option.eq_none_iff_forall_ne_some]
  intro e he
  rw [eventAbout_eq_some] at he
  cases e with
  | called cb => exact h.not_called hstep cb he
  | destroyed =>
      obtain ⟨b, rfl, hb⟩ := event_destroyed he
      exact hact (congrArg _ (Arena.serial_injective hb hserial))

/-- Sockets come by constructors and go by destructors. -/
theorem sockets_step (hstep : s.step act = some t) :
    t.sockets = s.sockets ∨
      (∃ b registers, act = .construct b registers ∧
        s.sockets.construct b () = some t.sockets) ∨
      ∃ b, act = .destroy b ∧ t.sockets = s.sockets.destroy b := by
  cases act with
  | collect batch =>
      obtain ⟨w, -, -, rfl⟩ := collect_cases hstep
      exact .inl rfl
  | dispatch =>
      obtain ⟨w, -, -, -, rfl⟩ := dispatch_cases hstep
      exact .inl rfl
  | turn => exact .inl (turn_frame hstep).1
  | ret =>
      obtain ⟨n, loop, cur, w, -, -, -, rfl⟩ := ret_cases hstep
      exact .inl rfl
  | construct b registers =>
      exact .inr (.inl ⟨b, registers, rfl, (construct_frame hstep).2.1⟩)
  | destroy b => exact .inr (.inr ⟨b, rfl, (destroy_frame hstep).2.1⟩)

/-- A socket that is not destroyed lives on. -/
theorem serial_lives (hstep : s.step act = some t) (hserial : s.sockets.serial a = some i)
    (hact : act ≠ .destroy a) : t.sockets.serial a = some i := by
  rcases sockets_step hstep with hsame | ⟨b, registers, rfl, hnew⟩ | ⟨b, rfl, hgone⟩
  · rw [hsame, hserial]
  · rw [Arena.serial_of_construct hnew, if_neg, hserial]
    rintro rfl
    have hfree := Arena.serial_eq_none.mpr (Arena.free_of_construct hnew)
    rw [hserial] at hfree
    cases hfree
  · rw [hgone, Arena.serial_destroy, if_neg, hserial]
    rintro rfl
    exact hact rfl

/-- A destructor is the end of its socket. -/
theorem Progress.end_of_destroy (hstep : s.destroy a = some t)
    (hserial : s.sockets.serial a = some i) {made : List Callback} (hfront : made <+: due)
    (hes : es = made.map .called) :
    Progress due a i (es ++ (eventAbout event i s (.destroy a)).toList) t := by
  have hsockets := (destroy_frame hstep).2.1
  have hevent : eventAbout event i s (.destroy a) = some .destroyed :=
    eventAbout_eq_some.mpr (Option.map_eq_some_iff.mpr ⟨i, hserial, rfl⟩)
  refine .gone made hfront ?_ (fun b hb => ?_) (by rw [hevent, hes]; rfl)
  · rw [hsockets, Arena.born_destroy]
    exact Arena.serial_lt_born hserial
  · rw [hsockets, Arena.serial_destroy] at hb
    split_ifs at hb with hba
    exact hba (Arena.serial_injective hb hserial)

/-- **A step that does not destroy the socket**, while it waits. -/
theorem Waiting.step (hok : s.Ok) (hpending : s.pending = true) (h : s.Waiting a i w)
    (hstep : s.step act = some t) (hact : act ≠ .destroy a)
    (hconstruct : ∀ b registers, act ≠ .construct b registers) :
    (∃ w', t.Waiting a i w' ∧ ∃ now : List Callback, w.owed a = now ++ w'.owed a ∧
      (eventAbout event i s act).toList = now.map .called) ∨
    (w.owed a = [.onDisconnect] ∧ s.event act = some (i, .called .onDisconnect)) := by
  have hserial := serial_lives hstep h.serial hact
  cases act with
  | collect batch =>
      obtain ⟨w₀, hw, hfree, -⟩ := collect_cases hstep
      rw [pending_some hw, hfree] at hpending
      cases hpending
  | dispatch =>
      obtain ⟨w₀, -, -, -, rfl⟩ := dispatch_cases hstep
      exact .inl ⟨w, ⟨hserial, h.worker, h.client, fun n hin => by cases hin⟩, [], rfl, rfl⟩
  | turn => exact h.turn hok hstep
  | ret =>
      obtain ⟨n, loop, cur, w₀, hcontrol, hw, -, rfl⟩ := ret_cases hstep
      obtain rfl : w = w₀ := Option.some.inj (h.worker.symm.trans hw)
      refine .inl ⟨w.afterCall loop cur,
        ⟨hserial, rfl, ?_, fun n' hin => by cases hin⟩, [], ?_, rfl⟩
      · cases loop with
        | onDisconnect =>
            refine Finset.mem_erase.mpr ⟨?_, h.client⟩
            rintro rfl
            exact h.quiet n hcontrol
        | onCanRead | onCanWrite => exact h.client
      · exact (SocketWorker.owed_congr fun loop' =>
          SocketWorker.deque_afterCall w loop loop' cur).symm
  | construct b registers => exact absurd rfl (hconstruct b registers)
  | destroy b =>
      refine .inl ⟨w.deregisterSocket b, ⟨hserial, ?_, ?_, ?_⟩, [], ?_, ?_⟩
      · exact destroy_worker hok h.worker hstep hserial
      · refine Finset.mem_erase.mpr ⟨?_, h.client⟩
        rintro rfl
        exact hact rfl
      · rw [(destroy_frame hstep).1]
        exact h.quiet
      · exact (SocketWorker.owed_congr fun loop =>
          SocketWorker.deque_deregisterSocket w loop b).symm
      · have hnone : eventAbout event i s (.destroy b) = none := by
          rw [Option.eq_none_iff_forall_ne_some]
          intro e he
          rw [eventAbout_eq_some] at he
          obtain ⟨j, hj, heq⟩ := Option.map_eq_some_iff.mp he
          obtain ⟨rfl, -⟩ := Prod.mk.inj heq
          exact hact (congrArg _ (Arena.serial_injective hj h.serial))
        rw [hnone]
        rfl

/-- **A step of a dispatch** brings the calls of a socket on. -/
theorem Progress.step (hok : s.Ok) (hpending : s.pending = true) (h : Progress due a i es s)
    (hstep : s.step act = some t) :
    Progress due a i (es ++ (eventAbout event i s act).toList) t := by
  cases h with
  | waiting made w waits left history =>
      by_cases hact : act = .destroy a
      · subst hact
        exact .end_of_destroy hstep waits.serial (left ▸ List.prefix_append _ _) history
      by_cases hconstruct : ∃ b registers, act = .construct b registers
      · obtain ⟨b, registers, rfl⟩ := hconstruct
        obtain ⟨hcontrol, hnew, hclients⟩ := construct_frame hstep
        have hnone : eventAbout event i s (.construct b registers) = none := rfl
        rw [hnone, Option.toList_none, List.append_nil]
        refine Progress.construct (.waiting made w waits left history) hnew hcontrol hclients ?_
        intro w₀ hw
        rcases construct_worker hok hw hstep with ht | ⟨added, ht⟩
        · exact ⟨w₀, ht, Finset.Subset.refl _, fun _ => rfl⟩
        · exact ⟨_, ht, SocketWorker.subset_clients_registerSocket w₀ b added,
            fun loop => SocketWorker.deque_registerSocket w₀ loop b added⟩
      have hother : ∀ b registers, act ≠ .construct b registers :=
        fun b registers heq => hconstruct ⟨b, registers, heq⟩
      rcases waits.step hok hpending hstep hact hother with
        ⟨w', hwaits, now, howed, hevent⟩ | ⟨howed, hevent⟩
      · refine .waiting (made ++ now) w' hwaits ?_ ?_
        · rw [List.append_assoc, ← howed, left]
        · rw [hevent, history, List.map_append]
      · refine .told (serial_lives hstep waits.serial hact)
          (disconnected_of_called hstep hevent) ?_
        rw [eventAbout_eq_some.mpr hevent, history, ← left, howed, List.map_append]
        rfl
  | told serial disconnected history =>
      by_cases hact : act = .destroy a
      · subst hact
        exact .end_of_destroy hstep serial List.prefix_rfl history
      · rw [disconnected.eventAbout hstep serial hact, Option.toList_none, List.append_nil]
        exact .told (serial_lives hstep serial hact) (disconnected.step hstep) history
  | gone made front born serial history =>
      rw [eventAbout_gone hstep serial, Option.toList_none, List.append_nil]
      exact .gone made front (Nat.lt_of_lt_of_le born (born_le_of_step hstep))
        (fun b hb => serial b (serial_of_step hstep hb born)) history

/-! ## Whole dispatches -/

/-- A socket that is registered when a batch is collected waits for its calls. -/
theorem progress_of_collect {batch : Batch} (hok : s.Ok) (hidle : s.control = .idle)
    (hcollect : s.collect batch = some t) (hreg : s.RegisteredAt a i) :
    Progress (batch.due a) a i [] t := by
  obtain ⟨w, hw, hfree, rfl⟩ := collect_cases hcollect
  have hclient := hreg.2
  rw [clients_some hw] at hclient
  refine .waiting [] (w.run batch) ⟨hreg.1, rfl, ?_, ?_⟩ ?_ rfl
  · rw [SocketWorker.clients_run]
    exact hclient
  · rintro n hcalling
    cases hidle.symm.trans hcalling
  · rw [List.nil_append, SocketWorker.owed_run (hok.emptied w hw hfree)]

/-- What is known of the calls of a socket, when they have come so far. -/
theorem Progress.calls (hok : s.Ok) (h : Progress due a i es s) :
    ∃ made, made <+: due ∧
      es = made.map .called ++ (if s.sockets.serial a = some i then [] else [.destroyed]) ∧
      (s.pending = false → s.sockets.serial a = some i → made = due) := by
  cases h with
  | waiting made w waits left history =>
      refine ⟨made, left ▸ List.prefix_append _ _, ?_, fun hover _ => ?_⟩
      · rw [if_pos waits.serial, List.append_nil, history]
      · rw [pending_some waits.worker] at hover
        rw [SocketWorker.owed_eq_nil (hok.emptied w waits.worker hover), List.append_nil] at left
        exact left
  | told serial disconnected history =>
      exact ⟨due, List.prefix_rfl, by rw [if_pos serial, List.append_nil, history], fun _ _ => rfl⟩
  | gone made front born serial history =>
      refine ⟨made, front, ?_, fun _ hlives => absurd hlives (serial a)⟩
      rw [if_neg (serial a), history]

/-- **A batch makes the calls that are due.**  Whatever the callbacks construct and destroy, at
whatever addresses: a socket that is registered when the batch is collected gets a prefix of
the calls due to it, then its destructor if it has been destroyed, and nothing else; and it has
got all of them when the dispatch is over and it is still there. -/
theorem batch_calls {tr₀ tr : List (State × Action)} {s' : State} {batch : Batch}
    (hreach : Runs .init tr₀ s) (hidle : s.control = .idle)
    (hcollect : s.collect batch = some s') (hrun : Dispatch s' tr t) (hreg : s.RegisteredAt a i) :
    ∃ made, made <+: batch.due a ∧
      history i tr = made.map .called ++
        (if t.sockets.serial a = some i then [] else [.destroyed]) ∧
      (t.pending = false → t.sockets.serial a = some i → made = batch.due a) := by
  have hok := Ok.init.run hreach
  have hok' := hok.collect hcollect
  obtain ⟨hsteps, hpending⟩ := hrun
  have hprogress : Progress (batch.due a) a i (history i tr) t := by
    induction hsteps with
    | nil => exact progress_of_collect hok hidle hcollect hreg
    | @snoc tr t u act hsteps hstep ih =>
        have hbefore := ih fun p hp => hpending p (List.mem_append_left _ hp)
        have hnow : t.pending = true := hpending (t, act) (by simp)
        have hnext := hbefore.step (hok'.run hsteps) hnow hstep
        rwa [history, history_snoc]
  exact hprogress.calls (hok'.run hsteps)

/-- A socket that can be read and written, twice, and one that hangs up; the latter is destroyed
in its `onDisconnect`, with a new socket in its place. -/
theorem batch_calls_example : ∃ s s' t tr,
    exec State.step .init [.construct 1 (some true), .construct 2 (some true)] = some s ∧
    s.collect ⟨[⟨EPOLLIN ||| EPOLLOUT, 2⟩, ⟨EPOLLIN ||| EPOLLHUP, 1⟩, ⟨EPOLLPRI, 2⟩],
      by decide, by decide⟩ = some s' ∧
    Dispatch s' tr t ∧ t.pending = false ∧ t.sockets.serial 2 = some 1 ∧
    history 1 tr = [.called .onCanRead, .called .onCanRead, .called .onCanWrite] := by
  let s := (exec State.step .init [.construct 1 (some true), .construct 2 (some true)]).get
    (by decide)
  let batch : Batch := ⟨[⟨EPOLLIN ||| EPOLLOUT, 2⟩, ⟨EPOLLIN ||| EPOLLHUP, 1⟩, ⟨EPOLLPRI, 2⟩],
    by decide, by decide⟩
  let s' := (s.collect batch).get (by decide)
  let acts : List Action := [.dispatch, .turn, .destroy 1, .construct 1 (some true), .ret, .turn,
    .turn, .ret, .turn, .ret, .turn, .turn, .ret, .turn]
  let t := (exec State.step s' acts).get (by decide)
  have hs : exec State.step .init [.construct 1 (some true), .construct 2 (some true)] = some s :=
    (Option.some_get _).symm
  have hcollect : s.collect batch = some s' := (Option.some_get _).symm
  have ht : exec State.step s' acts = some t := (Option.some_get _).symm
  obtain ⟨tr₀, hreach, -⟩ := exec_run State.step .init _ s hs
  have hrun : Dispatch s' (trace State.step s' acts) t :=
    ⟨(exec_trace State.step s' acts t ht).1, by decide⟩
  have hreg : s.RegisteredAt 2 1 := ⟨by decide, by decide⟩
  obtain ⟨made, -, hhistory, hall⟩ := batch_calls hreach (by decide) hcollect hrun hreg
  have hlives : t.sockets.serial 2 = some 1 := by decide
  have hover : t.pending = false := by decide
  refine ⟨s, s', t, _, hs, hcollect, hrun, hover, hlives, ?_⟩
  rw [hhistory, hall hover hlives, if_pos hlives]
  decide

end State

end Epoll

end Craplib
