import Craplib.Socket.EpollSteps
import Craplib.Socket.SelectWorker

/-!
# What the steps of the select worker do

* `fillSets_spec` and `queueChanges_eq` say what the two loops over `clients` compute.
* `thread_cases` and its siblings say once what each step does.
* `State.Ok` is the invariant of the worker: `clients` holds live sockets with a descriptor
  that a set has room for, each once; the deques hold clients only; and the condition `c` is
  true exactly when there is a client, so that the thread sleeps only when there is none.
-/

namespace Craplib

namespace Select

open Epoll (SocketPtr Callback Control)

/-- The place of a loop in `handleChanges`. -/
def rank : Callback → ℕ
  | .onCanRead => 0
  | .onCanWrite => 1
  | .onDisconnect => 2

/-! ## The sets -/

namespace SocketWorker

variable (w : SocketWorker) (loop loop' : Callback)

theorem mem_fdSet {sets : FdSets} {sock sock' : ℤ} :
    sock' ∈ (sets.fdSet sock).of loop ↔ sock' = sock ∨ sock' ∈ sets.of loop := by
  cases loop <;> exact Finset.mem_insert

/-- The loop over `clients` in `run`, from any sets on. -/
theorem foldlM_fillSets {getSock : SocketPtr → Option ℤ} (clients : List SocketPtr)
    (hlive : ∀ a ∈ clients, getSock a ≠ none) (sets : FdSets) (maxSock : ℤ) :
    ∃ sets' maxSock', clients.foldlM (fun (sets, maxSock) cur => do
        let sock ← getSock cur
        some (FdSets.fdSet sets sock, if maxSock > sock then maxSock else sock)) (sets, maxSock) =
          some (sets', maxSock') ∧
      (∀ loop sock, sock ∈ sets'.of loop ↔
        sock ∈ sets.of loop ∨ ∃ a ∈ clients, getSock a = some sock) ∧
      maxSock ≤ maxSock' ∧ ∀ a ∈ clients, ∀ sock, getSock a = some sock → sock ≤ maxSock' := by
  induction clients generalizing sets maxSock with
  | nil => exact ⟨sets, maxSock, rfl, by simp, Int.le_refl _, by simp⟩
  | cons cur rest ih =>
      obtain ⟨sock, hsock⟩ := Option.ne_none_iff_exists'.mp (hlive cur List.mem_cons_self)
      obtain ⟨sets', maxSock', hrest, hmem, hle, hmax⟩ :=
        ih (fun a ha => hlive a (List.mem_cons_of_mem _ ha)) (sets.fdSet sock)
          (if maxSock > sock then maxSock else sock)
      have hboth : maxSock ≤ maxSock' ∧ sock ≤ maxSock' := by
        split_ifs at hle <;> omega
      refine ⟨sets', maxSock', ?_, fun l n => ?_, hboth.1, fun a ha n hn => ?_⟩
      · rw [List.foldlM_cons]
        simp only [hsock, Option.bind_eq_bind, Option.bind_some]
        exact hrest
      · rw [hmem, mem_fdSet]
        simp only [List.exists_mem_cons_iff, hsock, Option.some.injEq, eq_comm (a := n)]
        tauto
      · rcases List.mem_cons.mp ha with rfl | ha
        · rw [hsock, Option.some.injEq] at hn
          exact hn ▸ hboth.2
        · exact hmax a ha n hn

/-- **The sets are those of the descriptors of `clients`**, and `maxSock` is not below any of
them. -/
theorem fillSets_spec {getSock : SocketPtr → Option ℤ} {clients : List SocketPtr}
    (hlive : ∀ a ∈ clients, getSock a ≠ none) :
    ∃ sets maxSock, fillSets clients getSock = some (sets, maxSock) ∧
      (∀ loop sock, sock ∈ sets.of loop ↔ ∃ a ∈ clients, getSock a = some sock) ∧
      0 ≤ maxSock ∧ ∀ a ∈ clients, ∀ sock, getSock a = some sock → sock ≤ maxSock := by
  obtain ⟨sets, maxSock, hfill, hmem, hle, hmax⟩ := foldlM_fillSets clients hlive {} 0
  refine ⟨sets, maxSock, hfill, fun loop sock => ?_, hle, hmax⟩
  rw [hmem]
  cases loop <;> simp [FdSets.of]

/-- `FD_ISSET`, for the descriptor of a client in a copy. -/
def isSet (copies : FdSets) (getSock : SocketPtr → Option ℤ) (loop : Callback) (a : SocketPtr) :
    Bool :=
  match getSock a with
  | some sock => sock ∈ copies.of loop
  | none => false

/-- The loop over clients in `handleChanges`. -/
theorem foldlM_queueChanges {getSock : SocketPtr → Option ℤ} (clients : List SocketPtr)
    (hlive : ∀ a ∈ clients, getSock a ≠ none) :
    clients.foldlM (fun w cur => do
      let sock ← getSock cur
      some { w with
        read := if sock ∈ w.copies.readfd then w.read ++ [cur] else w.read
        write := if sock ∈ w.copies.writefd then w.write ++ [cur] else w.write
        err := if sock ∈ w.copies.errfd then w.err ++ [cur] else w.err }) w =
    some { w with
      read := w.read ++ clients.filter (isSet w.copies getSock .onCanRead)
      write := w.write ++ clients.filter (isSet w.copies getSock .onCanWrite)
      err := w.err ++ clients.filter (isSet w.copies getSock .onDisconnect) } := by
  induction clients generalizing w with
  | nil => simp
  | cons cur rest ih =>
      obtain ⟨sock, hsock⟩ := Option.ne_none_iff_exists'.mp (hlive cur List.mem_cons_self)
      rw [List.foldlM_cons, hsock]
      refine (ih _ fun a ha => hlive a (List.mem_cons_of_mem _ ha)).trans ?_
      simp only [List.filter_cons, isSet, hsock, FdSets.of]
      by_cases hread : sock ∈ w.copies.readfd <;> by_cases hwrite : sock ∈ w.copies.writefd <;>
        by_cases herr : sock ∈ w.copies.errfd <;> simp [hread, hwrite, herr]

/-- **What `handleChanges` queues**: behind each deque the clients whose bit is set. -/
theorem queueChanges_eq {getSock : SocketPtr → Option ℤ}
    (hlive : ∀ a ∈ w.clients, getSock a ≠ none) :
    w.queueChanges getSock = some { w with
      read := w.read ++ w.clients.filter (isSet w.copies getSock .onCanRead)
      write := w.write ++ w.clients.filter (isSet w.copies getSock .onCanWrite)
      err := w.err ++ w.clients.filter (isSet w.copies getSock .onDisconnect) } :=
  foldlM_queueChanges w w.clients hlive

/-! ## The worker -/

theorem deque_congr {w w' : SocketWorker} (hread : w'.read = w.read) (hwrite : w'.write = w.write)
    (herr : w'.err = w.err) (loop : Callback) : w'.deque loop = w.deque loop := by
  cases loop
  · exact herr
  · exact hread
  · exact hwrite

@[simp] theorem serial_set (val : Bool) : (w.set val).serial = w.serial := rfl

@[simp] theorem clients_set (val : Bool) : (w.set val).clients = w.clients := rfl

@[simp] theorem deque_set (val : Bool) : (w.set val).deque loop = w.deque loop := by
  cases loop <;> rfl

@[simp] theorem serial_signal : w.signal.serial = w.serial := rfl

@[simp] theorem clients_signal : w.signal.clients = w.clients := rfl

@[simp] theorem deque_signal : w.signal.deque loop = w.deque loop := by cases loop <;> rfl

/-- Nobody waits on a condition that has just been set. -/
theorem thread_set_ne (val : Bool) : (w.set val).thread ≠ .waiting := by
  unfold set
  dsimp only
  split_ifs with hwait
  · exact Position.noConfusion
  · exact hwait

@[simp] theorem thread_signal_eq_waiting : w.signal.thread = .waiting ↔ w.thread = .waiting := by
  unfold signal
  dsimp only
  split_ifs with hasleep
  · simp [hasleep]
  · exact Iff.rfl

theorem thread_signal (hawake : w.thread ≠ .asleep) : w.signal.thread = w.thread := by
  rw [signal, if_neg hawake]

@[simp] theorem serial_popFront : (w.popFront loop).serial = w.serial := by cases loop <;> rfl

@[simp] theorem clients_popFront : (w.popFront loop).clients = w.clients := by cases loop <;> rfl

@[simp] theorem called_popFront : (w.popFront loop).called = w.called := by cases loop <;> rfl

@[simp] theorem d_popFront : (w.popFront loop).d = w.d := by cases loop <;> rfl

@[simp] theorem thread_popFront : (w.popFront loop).thread = w.thread := by cases loop <;> rfl

theorem deque_popFront :
    (w.popFront loop).deque loop' =
      if loop' = loop then (w.deque loop).tail else w.deque loop' := by
  cases loop <;> cases loop' <;> rfl

@[simp] theorem serial_deregisterSocket (a : SocketPtr) :
    (w.deregisterSocket a).serial = w.serial := rfl

@[simp] theorem called_deregisterSocket (a : SocketPtr) :
    (w.deregisterSocket a).called = w.called := rfl

theorem clients_deregisterSocket (a : SocketPtr) :
    (w.deregisterSocket a).clients = w.clients.filter (· ≠ a) := rfl

theorem deque_deregisterSocket (a : SocketPtr) :
    (w.deregisterSocket a).deque loop = (w.deque loop).filter (· ≠ a) := by
  cases loop <;> rfl

@[simp] theorem serial_registerSocket (a : SocketPtr) (sock : ℤ) :
    (w.registerSocket a sock).serial = w.serial := by
  unfold registerSocket
  split_ifs <;> rfl

@[simp] theorem called_registerSocket (a : SocketPtr) (sock : ℤ) :
    (w.registerSocket a sock).called = w.called := by
  unfold registerSocket
  split_ifs <;> rfl

@[simp] theorem deque_registerSocket (a : SocketPtr) (sock : ℤ) :
    (w.registerSocket a sock).deque loop = w.deque loop := by
  unfold registerSocket
  split_ifs <;> cases loop <;> rfl

theorem clients_registerSocket (a : SocketPtr) (sock : ℤ) :
    (w.registerSocket a sock).clients =
      if sock < FD_SETSIZE then w.clients ++ [a] else w.clients := by
  unfold registerSocket
  split_ifs with hfull hroom hroom
  · exact absurd hroom (Int.not_lt.mpr hfull)
  · rfl
  · rfl
  · exact absurd (Int.not_le.mp hfull) hroom

/-- **The worker by itself.**  Its clients are live sockets that a set has room for, each there
once; the deques hold clients, in their order; the condition is true exactly when there is a
client, and the thread waits for it only when there is none. -/
structure Ok (w : SocketWorker) (getSock : SocketPtr → Option ℤ) : Prop where
  live : ∀ a ∈ w.clients, ∃ sock, getSock a = some sock ∧ sock < FD_SETSIZE
  nodup : w.clients.Nodup
  queued : ∀ loop, (w.deque loop).Sublist w.clients
  flag : w.d = !w.clients.isEmpty
  waiting : w.thread = .waiting → w.clients = []
  message : w.called = true → w.message = .ONCHANGES

variable {w} {w' : SocketWorker} {getSock getSock' : SocketPtr → Option ℤ}

namespace Ok

/-- `SocketWorker()` -/
theorem fresh (serial : ℕ) (getSock : SocketPtr → Option ℤ) :
    SocketWorker.Ok { serial := serial } getSock where
  live := by simp
  nodup := List.nodup_nil
  queued loop := by cases loop <;> exact List.nil_sublist _
  flag := rfl
  waiting _ := rfl
  message hcalled := nomatch hcalled

theorem live_ne_none (h : w.Ok getSock) : ∀ a ∈ w.clients, getSock a ≠ none := by
  intro a ha
  obtain ⟨sock, hsock, -⟩ := h.live a ha
  rw [hsock]
  exact Option.some_ne_none sock

theorem queued_of (h : w.Ok getSock) (hread : w'.read = w.read) (hwrite : w'.write = w.write)
    (herr : w'.err = w.err) (loop : Callback) : (w'.deque loop).Sublist w.clients :=
  deque_congr hread hwrite herr loop ▸ h.queued loop

/-- The clients stay. -/
theorem of_clients (h : w.Ok getSock) (hclients : w'.clients = w.clients)
    (hdeque : ∀ loop, (w'.deque loop).Sublist w.clients) (hflag : w'.d = w.d)
    (hwaiting : w'.thread = .waiting → w.clients = [])
    (hmessage : w'.called = true → w'.message = .ONCHANGES) : w'.Ok getSock where
  live := hclients ▸ h.live
  nodup := hclients ▸ h.nodup
  queued := hclients ▸ hdeque
  flag := by rw [hflag, hclients, h.flag]
  waiting hwait := hclients ▸ hwaiting hwait
  message := hmessage

/-- The same, with the deques as they are. -/
theorem of_same (h : w.Ok getSock) (hclients : w'.clients = w.clients)
    (hdeque : ∀ loop, w'.deque loop = w.deque loop) (hflag : w'.d = w.d)
    (hwaiting : w'.thread = .waiting → w.clients = [])
    (hmessage : w'.called = true → w'.message = .ONCHANGES) : w'.Ok getSock :=
  h.of_clients hclients (fun loop => hdeque loop ▸ h.queued loop) hflag hwaiting hmessage

/-- The message is let go of. -/
theorem uncalled (h : w.Ok getSock) (gone : Bool) :
    SocketWorker.Ok ({ w with called := false, destroyed := gone } : SocketWorker).signal
      getSock where
  live := h.live
  nodup := h.nodup
  queued loop := by
    rw [deque_signal]
    exact h.queued_of rfl rfl rfl loop
  flag := h.flag
  waiting hwait := h.waiting ((thread_signal_eq_waiting _).mp hwait)
  message hcalled := nomatch hcalled

/-- Sockets elsewhere come and go. -/
theorem congr (h : w.Ok getSock) (hsame : ∀ a ∈ w.clients, getSock' a = getSock a) :
    w.Ok getSock' :=
  { h with live := fun a ha => hsame a ha ▸ h.live a ha }

theorem popFront (h : w.Ok getSock) (loop : Callback) : (w.popFront loop).Ok getSock := by
  refine h.of_clients (clients_popFront w loop) (fun loop' => ?_) (d_popFront w loop) ?_ ?_
  · rw [deque_popFront]
    split_ifs
    · exact (List.tail_sublist _).trans (h.queued loop)
    · exact h.queued loop'
  · rw [thread_popFront]
    exact h.waiting
  · cases loop <;> exact h.message

/-- A new socket registers. -/
theorem registerSocket (h : w.Ok getSock) {a : SocketPtr} {sock : ℤ} (hnew : a ∉ w.clients)
    (hsock : getSock a = some sock) : (w.registerSocket a sock).Ok getSock := by
  unfold SocketWorker.registerSocket
  split_ifs with hfull
  · exact h
  · refine ⟨fun b hb => ?_, ?_, fun loop => ?_, ?_,
      fun hwait => absurd hwait (thread_set_ne _ _), h.message⟩
    · rcases List.mem_append.mp hb with hb | hb
      · exact h.live b hb
      · obtain rfl := List.mem_singleton.mp hb
        exact ⟨sock, hsock, Int.not_le.mp hfull⟩
    · exact List.nodup_append.mpr ⟨h.nodup, List.nodup_singleton a, fun b hb c hc hbc =>
        hnew ((List.mem_singleton.mp hc) ▸ hbc ▸ hb)⟩
    · rw [deque_set]
      exact (h.queued_of rfl rfl rfl loop).trans (List.sublist_append_left _ _)
    · simp [set]

/-- A socket is destroyed. -/
theorem deregisterSocket (h : w.Ok getSock) {a : SocketPtr}
    (hsame : ∀ b, b ≠ a → getSock' b = getSock b) : (w.deregisterSocket a).Ok getSock' := by
  refine ⟨fun b hb => ?_, h.nodup.filter _, fun loop => ?_, rfl,
    fun hwait => absurd hwait (thread_set_ne _ _), h.message⟩
  · obtain ⟨hmem, hne⟩ := List.mem_filter.mp hb
    rw [hsame b (by simpa using hne)]
    exact h.live b hmem
  · rw [deque_deregisterSocket, clients_deregisterSocket]
    exact (h.queued loop).filter _

end Ok

/-! ## What the thread does -/

/-- `lock` either goes on to `select`, with the sets of the descriptors of all clients, or to
sleep. -/
theorem lock_cases (h : w.threadStep getSock .lock = some w') :
    w.thread = .locking ∧
      ((w.d = true ∧ w.prepare getSock = some w') ∨
        w.d = false ∧ w' = { w with thread := .waiting }) := by
  unfold threadStep at h
  dsimp only at h
  split at h
  · next hthread =>
      split_ifs at h with hd
      · exact ⟨hthread, .inl ⟨hd, h⟩⟩
      · exact ⟨hthread, .inr ⟨eq_false_of_ne_true hd, (Option.some.inj h).symm⟩⟩
  · cases h

theorem prepare_cases (h : w.prepare getSock = some w') :
    ∃ sets maxSock, fillSets w.clients getSock = some (sets, maxSock) ∧
      w' = { w with d := !w.clients.isEmpty, sets := sets,
                    thread := .selecting (maxSock + 1) } := by
  obtain ⟨⟨sets, maxSock⟩, hfill, h⟩ := Option.bind_eq_some_iff.mp h
  exact ⟨sets, maxSock, hfill, (Option.some.inj h).symm⟩

theorem select_cases {left : FdSets} (h : w.threadStep getSock (.select left) = some w') :
    ∃ nfds, w.thread = .selecting nfds ∧ left.LeftOf w.sets nfds ∧
      w' = { w with sets := left, thread := if left.count > 0 then .entering else .locking } := by
  unfold threadStep at h
  dsimp only at h
  split at h
  · next nfds hthread =>
      split at h
      · next hleft => exact ⟨nfds, hthread, hleft, (Option.some.inj h).symm⟩
      · cases h
  · cases h

theorem fail_cases (h : w.threadStep getSock .fail = some w') :
    ∃ nfds, w.thread = .selecting nfds ∧ w' = { w with thread := .locking } := by
  unfold threadStep at h
  dsimp only at h
  split at h
  · next nfds hthread => exact ⟨nfds, hthread, (Option.some.inj h).symm⟩
  · cases h

theorem enter_cases (h : w.threadStep getSock .enter = some w') :
    w.thread = .entering ∧
      (w.called = true ∧ w' = { w with thread := .asleep } ∨
        w.called = false ∧ w.destroyed = true ∧ w' = { w with thread := .ended } ∨
        w.called = false ∧ w.destroyed = false ∧ w' = { w with thread := .inside }) := by
  unfold threadStep at h
  dsimp only at h
  split at h
  · next hthread =>
      split_ifs at h with hcalled hgone
      · exact ⟨hthread, .inl ⟨hcalled, (Option.some.inj h).symm⟩⟩
      · exact ⟨hthread, .inr (.inl ⟨eq_false_of_ne_true hcalled, hgone,
          (Option.some.inj h).symm⟩)⟩
      · exact ⟨hthread, .inr (.inr ⟨eq_false_of_ne_true hcalled, eq_false_of_ne_true hgone,
          (Option.some.inj h).symm⟩)⟩
  · cases h

theorem work_cases (h : w.threadStep getSock .work = some w') :
    w.thread = .inside ∧
      w' = { w with message := .ONCHANGES, copies := w.sets, called := true,
                    thread := .locking } := by
  unfold threadStep at h
  dsimp only at h
  split at h
  · next hthread => exact ⟨hthread, (Option.some.inj h).symm⟩
  · cases h

theorem wake_cases (h : w.threadStep getSock .wake = some w') :
    (w.thread = .waiting ∧ w' = { w with thread := .locking }) ∨
      w.thread = .asleep ∧ w' = { w with thread := .entering } := by
  unfold threadStep at h
  dsimp only at h
  split at h
  · next hthread => exact .inl ⟨hthread, (Option.some.inj h).symm⟩
  · next hthread =>
      refine .inr ⟨hthread, ?_⟩
      rw [SocketWorker.signal, if_pos hthread] at h
      exact (Option.some.inj h).symm
  · cases h

/-- **What a step of the thread leaves alone**: the clients, the deques and the serial number;
and the message is with the run loop afterwards only if it was or is now being called. -/
theorem threadStep_frame {act : ThreadAction} (h : w.threadStep getSock act = some w') :
    w'.serial = w.serial ∧ w'.clients = w.clients ∧ (∀ loop, w'.deque loop = w.deque loop) ∧
      w'.destroyed = w.destroyed ∧ (w'.called = w.called ∨ act = .work ∧ w'.called = true) := by
  cases act with
  | lock =>
      obtain ⟨-, ⟨-, hprepare⟩ | ⟨-, rfl⟩⟩ := lock_cases h
      · obtain ⟨sets, maxSock, -, rfl⟩ := prepare_cases hprepare
        exact ⟨rfl, rfl, deque_congr rfl rfl rfl, rfl, .inl rfl⟩
      · exact ⟨rfl, rfl, deque_congr rfl rfl rfl, rfl, .inl rfl⟩
  | select left =>
      obtain ⟨nfds, -, -, rfl⟩ := select_cases h
      exact ⟨rfl, rfl, deque_congr rfl rfl rfl, rfl, .inl rfl⟩
  | fail =>
      obtain ⟨nfds, -, rfl⟩ := fail_cases h
      exact ⟨rfl, rfl, deque_congr rfl rfl rfl, rfl, .inl rfl⟩
  | enter =>
      obtain ⟨-, ⟨-, rfl⟩ | ⟨-, -, rfl⟩ | ⟨-, -, rfl⟩⟩ := enter_cases h
      all_goals exact ⟨rfl, rfl, deque_congr rfl rfl rfl, rfl, .inl rfl⟩
  | work =>
      obtain ⟨-, rfl⟩ := work_cases h
      exact ⟨rfl, rfl, deque_congr rfl rfl rfl, rfl, .inr ⟨rfl, rfl⟩⟩
  | wake =>
      obtain ⟨-, rfl⟩ | ⟨-, rfl⟩ := wake_cases h
      all_goals exact ⟨rfl, rfl, deque_congr rfl rfl rfl, rfl, .inl rfl⟩

/-- The thread goes to sleep only when there is no client. -/
theorem Ok.threadStep (hok : w.Ok getSock) {act : ThreadAction}
    (h : w.threadStep getSock act = some w') : w'.Ok getSock := by
  obtain ⟨-, hclients, hdeque, -, -⟩ := threadStep_frame h
  have hsame : w'.d = w.d ∧ (w'.thread = .waiting → w.clients = []) ∧
      (w'.called = true → w'.message = .ONCHANGES) := by
    cases act with
    | lock =>
        obtain ⟨-, ⟨-, hprepare⟩ | ⟨hd, rfl⟩⟩ := lock_cases h
        · obtain ⟨sets, maxSock, -, rfl⟩ := prepare_cases hprepare
          exact ⟨hok.flag.symm, fun hwait => (nomatch hwait), hok.message⟩
        · refine ⟨rfl, fun _ => ?_, hok.message⟩
          have hflag := hok.flag
          rw [hd] at hflag
          simpa using hflag.symm
    | select left =>
        obtain ⟨nfds, -, -, rfl⟩ := select_cases h
        refine ⟨rfl, fun hwait => ?_, hok.message⟩
        dsimp only at hwait
        split_ifs at hwait
    | fail =>
        obtain ⟨nfds, -, rfl⟩ := fail_cases h
        exact ⟨rfl, fun hwait => (nomatch hwait), hok.message⟩
    | enter =>
        obtain ⟨-, ⟨-, rfl⟩ | ⟨-, -, rfl⟩ | ⟨-, -, rfl⟩⟩ := enter_cases h
        all_goals exact ⟨rfl, fun hwait => (nomatch hwait), hok.message⟩
    | work =>
        obtain ⟨-, rfl⟩ := work_cases h
        exact ⟨rfl, fun hwait => (nomatch hwait), fun _ => rfl⟩
    | wake =>
        obtain ⟨-, rfl⟩ | ⟨-, rfl⟩ := wake_cases h
        all_goals exact ⟨rfl, fun hwait => (nomatch hwait), hok.message⟩
  exact hok.of_same hclients hdeque hsame.1 hsame.2.1 hsame.2.2

end SocketWorker

namespace State

variable {s t : State}

/-! ## What a step does -/

theorem worker?_eq_some {n : ℕ} {w : SocketWorker} :
    s.worker? n = some w ↔ s.sta = some w ∧ w.serial = n := by
  rw [worker?, Option.filter_eq_some_iff, decide_eq_true_iff]

theorem thread_cases {act : ThreadAction} (h : s.step (.thread act) = some t) :
    ∃ w w', s.sta = some w ∧ w.threadStep s.getSock act = some w' ∧
      t = { s with sta := some w' } := by
  obtain ⟨w, hw, h⟩ := Option.bind_eq_some_iff.mp h
  obtain ⟨w', hw', h⟩ := Option.bind_eq_some_iff.mp h
  exact ⟨w, w', hw, hw', (Option.some.inj h).symm⟩

theorem step_thread {act : ThreadAction} {w w' : SocketWorker} (hw : s.sta = some w)
    (h : w.threadStep s.getSock act = some w') :
    s.step (.thread act) = some { s with sta := some w' } := by
  change s.sta.bind _ = _
  rw [hw, Option.bind_some]
  exact congrArg (fun o => Option.bind o _) h

theorem dispatch_cases (h : s.dispatch = some t) :
    ∃ w, s.sta = some w ∧ s.control = .idle ∧ s.teardown = none ∧ w.called = true ∧
      ((∃ w', w.message = .ONCHANGES ∧ w.queueChanges s.getSock = some w' ∧
          t = { s with sta := some w', control := .draining w'.serial .onCanRead }) ∨
        w.message = .IDLE ∧ t = { s with sta := some { w with called := false }.signal }) := by
  obtain ⟨w, hw, h⟩ := Option.bind_eq_some_iff.mp h
  split at h
  · next hguard =>
      obtain ⟨hidle, hteardown, hcalled⟩ := hguard
      refine ⟨w, hw, hidle, hteardown, hcalled, ?_⟩
      split at h
      · next hmessage =>
          obtain ⟨w', hw', h⟩ := Option.bind_eq_some_iff.mp h
          exact .inl ⟨w', hmessage, hw', (Option.some.inj h).symm⟩
      · next hmessage => exact .inr ⟨hmessage, (Option.some.inj h).symm⟩
  · cases h

/-- A turn of `handleChanges` calls the front of a deque, goes on to the next loop, or
returns. -/
theorem turn_cases (h : s.turn = some t) :
    ∃ n loop w, s.control = .draining n loop ∧ s.sta = some w ∧ w.serial = n ∧
      ((∃ cur rest, w.deque loop = cur :: rest ∧
          t = { s with sta := some (w.popFront loop), control := .calling n loop cur }) ∨
        (∃ loop', w.deque loop = [] ∧ next loop = some loop' ∧
          t = { s with control := .draining n loop' }) ∨
        (w.deque loop = [] ∧ next loop = none ∧
          t = { s with sta := some { w with called := false }.signal, control := .idle })) := by
  unfold turn at h
  split at h
  · next n loop hcontrol =>
      obtain ⟨w, hw, h⟩ := Option.bind_eq_some_iff.mp h
      obtain ⟨hsta, hserial⟩ := worker?_eq_some.mp hw
      refine ⟨n, loop, w, hcontrol, hsta, hserial, ?_⟩
      split at h
      · next cur rest hdeque => exact .inl ⟨cur, rest, hdeque, (Option.some.inj h).symm⟩
      · next hdeque =>
          split at h
          · next loop' hnext =>
              exact .inr (.inl ⟨loop', hdeque, hnext, (Option.some.inj h).symm⟩)
          · next hnext => exact .inr (.inr ⟨hdeque, hnext, (Option.some.inj h).symm⟩)
  · cases h

theorem ret_cases (h : s.ret = some t) :
    ∃ n loop cur w, s.control = .calling n loop cur ∧ s.teardown = none ∧ s.sta = some w ∧
      w.serial = n ∧ t = { s with control := .draining n loop } := by
  unfold ret at h
  split at h
  · next n loop cur hcontrol hteardown =>
      obtain ⟨w, hw, h⟩ := Option.bind_eq_some_iff.mp h
      obtain ⟨hsta, hserial⟩ := worker?_eq_some.mp hw
      exact ⟨n, loop, cur, w, hcontrol, hteardown, hsta, hserial, (Option.some.inj h).symm⟩
  · cases h

theorem inUserCode_cases (h : s.inUserCode = true) :
    s.teardown = none ∧ ∀ n loop, s.control ≠ .draining n loop := by
  unfold inUserCode at h
  split at h
  · cases h
  · cases h
  · next hteardown hnot => exact ⟨hteardown, hnot⟩

theorem construct_cases {a : SocketPtr} {sock : ℤ} {registers : Bool}
    (h : s.construct a sock registers = some t) :
    ∃ sockets, s.inUserCode = true ∧ s.sockets.construct a sock = some sockets ∧
      ((registers = false ∧ t = { s with sockets := sockets }.addRef) ∨
        ∃ w, registers = true ∧ { s with sockets := sockets }.addRef.sta = some w ∧
          t = { { s with sockets := sockets }.addRef with
                sta := some (w.registerSocket a sock) }) := by
  unfold construct at h
  split at h
  · next huser =>
      obtain ⟨sockets, hsockets, h⟩ := Option.bind_eq_some_iff.mp h
      refine ⟨sockets, huser, hsockets, ?_⟩
      cases registers with
      | false => exact .inl ⟨rfl, (Option.some.inj h).symm⟩
      | true =>
          obtain ⟨w, hw, h⟩ := Option.bind_eq_some_iff.mp h
          exact .inr ⟨w, rfl, hw, (Option.some.inj h).symm⟩
  · cases h

theorem destroy_cases {a : SocketPtr} (h : s.destroy a = some t) :
    ∃ i w, s.inUserCode = true ∧ s.sockets.serial a = some i ∧ s.sta = some w ∧
      t = { s with
        sockets := s.sockets.destroy a
        sta := some (w.deregisterSocket a)
        refCounter := s.refCounter - 1
        teardown := if s.refCounter - 1 = 0 then some .requesting else none } := by
  unfold destroy at h
  split at h
  · next huser =>
      obtain ⟨i, hi, h⟩ := Option.bind_eq_some_iff.mp h
      obtain ⟨w, hw, h⟩ := Option.bind_eq_some_iff.mp h
      exact ⟨i, w, huser, hi, hw, (Option.some.inj h).symm⟩
  · cases h

theorem requestTermination_cases (h : s.requestTermination = some t) :
    ∃ w, s.sta = some w ∧ s.teardown = some .requesting ∧ w.thread ≠ .inside ∧
      t = { s with sta := some { w with destroyed := true, called := false }.signal,
                   teardown := some .joining } := by
  obtain ⟨w, hw, h⟩ := Option.bind_eq_some_iff.mp h
  split at h
  · next hguard => exact ⟨w, hw, hguard.1, hguard.2, (Option.some.inj h).symm⟩
  · cases h

theorem join_cases (h : s.join = some t) :
    ∃ w, s.sta = some w ∧ s.teardown = some .joining ∧ w.thread = .ended ∧
      t = { s with sta := none, teardown := none } := by
  obtain ⟨w, hw, h⟩ := Option.bind_eq_some_iff.mp h
  split at h
  · next hguard => exact ⟨w, hw, hguard.1, hguard.2, (Option.some.inj h).symm⟩
  · cases h

/-! ## The invariant -/

/-- What holds between the steps: the worker is there as long as a socket is, and until the
destructor of the last one has joined its thread; the deques are empty outside of
`handleChanges`, and so are those of the loops it has behind it. -/
structure Ok (s : State) : Prop where
  count : s.refCounter = s.sockets.size
  shared : s.sta = none ↔ s.refCounter = 0 ∧ s.teardown = none
  tearing : s.teardown ≠ none → s.refCounter = 0
  worker : ∀ w, s.sta = some w → w.Ok s.getSock
  serial_lt : ∀ w, s.sta = some w → w.serial < s.workers
  loop_lt : ∀ n loop, s.control.loop? = some (n, loop) → n < s.workers
  drained : ∀ w loop, s.sta = some w → s.control.loop? = some (w.serial, loop) →
    ∀ loop', rank loop' < rank loop → w.deque loop' = []
  emptied : ∀ w, s.sta = some w → (∀ loop, s.control.loop? ≠ some (w.serial, loop)) →
    ∀ loop, w.deque loop = []

namespace Ok

variable {w : SocketWorker}

theorem init : State.init.Ok where
  count := rfl
  shared := by simp [State.init]
  tearing := by simp [State.init]
  worker := by simp [State.init]
  serial_lt := by simp [State.init]
  loop_lt := by simp [State.init, Control.loop?]
  drained := by simp [State.init]
  emptied := by simp [State.init]

/-- The loop thread or the worker's own thread has changed the worker. -/
theorem setWorker (h : s.Ok) (hw : s.sta = some w) (w' : SocketWorker) (control : Control)
    (hserial : w'.serial = w.serial) (hok : w'.Ok s.getSock)
    (hlt : ∀ n loop, control.loop? = some (n, loop) → n < s.workers)
    (hdrained : ∀ loop, control.loop? = some (w.serial, loop) →
      ∀ loop', rank loop' < rank loop → w'.deque loop' = [])
    (hemptied : (∀ loop, control.loop? ≠ some (w.serial, loop)) →
      ∀ loop, w'.deque loop = []) :
    Ok { s with sta := some w', control := control } where
  count := h.count
  shared := by
    rw [← h.shared, hw]
    simp
  tearing := h.tearing
  worker := by
    rintro _ ⟨rfl⟩
    exact hok
  serial_lt := by
    rintro _ ⟨rfl⟩
    rw [hserial]
    exact h.serial_lt w hw
  loop_lt := hlt
  drained := by
    rintro _ loop ⟨rfl⟩ hloop
    rw [hserial] at hloop
    exact hdrained loop hloop
  emptied := by
    rintro _ ⟨rfl⟩ hout
    exact hemptied (hserial ▸ hout)

/-- The same, with the deques as they were and the loop thread where it was. -/
theorem setWorker_same (h : s.Ok) (hw : s.sta = some w) (w' : SocketWorker)
    (hserial : w'.serial = w.serial) (hok : w'.Ok s.getSock)
    (hdeque : ∀ loop, w'.deque loop = w.deque loop) :
    Ok { s with sta := some w' } := by
  apply h.setWorker hw w' s.control hserial hok h.loop_lt
  · intro loop hloop loop' hrank
    rw [hdeque]
    exact h.drained w loop hw hloop loop' hrank
  · intro hout loop
    rw [hdeque]
    exact h.emptied w hw hout loop

/-- Without a socket there is no client. -/
theorem clients_eq_nil (h : s.Ok) (hw : s.sta = some w) (hzero : s.refCounter = 0) :
    w.clients = [] := by
  rw [List.eq_nil_iff_forall_not_mem]
  intro a ha
  obtain ⟨sock, hsock, -⟩ := (h.worker w hw).live a ha
  obtain ⟨⟨i, sock'⟩, hobject, -⟩ := Option.map_eq_some_iff.mp hsock
  have hpos := Arena.size_pos (Arena.serial_eq_some.mpr ⟨sock', hobject⟩)
  have hcount := h.count
  omega

theorem thread {act : ThreadAction} (h : s.Ok) (hstep : s.step (.thread act) = some t) : t.Ok := by
  obtain ⟨w, w', hw, hthread, rfl⟩ := thread_cases hstep
  obtain ⟨hserial, -, hdeque, -⟩ := SocketWorker.threadStep_frame hthread
  exact h.setWorker_same hw w' hserial ((h.worker w hw).threadStep hthread) hdeque

theorem dispatch (h : s.Ok) (hstep : s.dispatch = some t) : t.Ok := by
  obtain ⟨w, hw, hidle, -, -, ⟨w', -, hqueue, rfl⟩ | ⟨-, rfl⟩⟩ := dispatch_cases hstep
  · have hok := h.worker w hw
    rw [SocketWorker.queueChanges_eq w hok.live_ne_none] at hqueue
    obtain rfl := Option.some.inj hqueue
    apply h.setWorker hw _ (.draining w.serial .onCanRead)
    · rfl
    · refine hok.of_clients rfl (fun loop => ?_) rfl hok.waiting hok.message
      have hempty := h.emptied w hw (by rw [hidle]; exact fun _ hloop => nomatch hloop) loop
      cases loop
      all_goals
        simp only [SocketWorker.deque] at hempty ⊢
        rw [hempty, List.nil_append]
        exact List.filter_sublist
    · rintro n loop ⟨rfl, rfl⟩
      exact h.serial_lt w hw
    · rintro loop ⟨rfl, rfl⟩ loop' hrank
      exact absurd hrank (Nat.not_lt_zero _)
    · intro hout
      exact absurd rfl (hout .onCanRead)
  · exact h.setWorker_same hw _ rfl ((h.worker w hw).uncalled w.destroyed)
      fun loop => (SocketWorker.deque_signal _ loop).trans (by cases loop <;> rfl)

theorem turn (h : s.Ok) (hstep : s.turn = some t) : t.Ok := by
  obtain ⟨n, loop, w, hcontrol, hw, rfl, hcase⟩ := turn_cases hstep
  have hloop : s.control.loop? = some (w.serial, loop) := by rw [hcontrol, Control.loop?]
  have hbefore := h.drained w loop hw hloop
  have hlt := h.loop_lt w.serial loop hloop
  rcases hcase with ⟨cur, rest, hdeque, rfl⟩ | ⟨loop', hdeque, hnext, rfl⟩ | ⟨hdeque, hnext, rfl⟩
  · -- a callback is made
    apply h.setWorker hw (w.popFront loop) (.calling w.serial loop cur)
      (SocketWorker.serial_popFront w loop)
      ((h.worker w hw).popFront loop)
    · rintro n loop ⟨rfl, rfl⟩
      exact hlt
    · rintro loop' ⟨rfl, rfl⟩ loop'' hrank
      rw [SocketWorker.deque_popFront, if_neg, hbefore loop'' hrank]
      rintro rfl
      exact absurd hrank (Nat.lt_irrefl _)
    · intro hout
      exact absurd rfl (hout loop)
  · -- the next loop
    have hset := h.setWorker hw w (.draining w.serial loop') rfl (h.worker w hw)
    rw [← hw] at hset
    apply hset
    · rintro n loop ⟨rfl, rfl⟩
      exact hlt
    · rintro loop'' ⟨rfl, rfl⟩ before hrank
      have hcase : before = loop ∨ rank before < rank loop := by
        cases loop <;> cases hnext <;> cases before <;> simp_all [rank]
      rcases hcase with rfl | hlt
      · exact hdeque
      · exact hbefore before hlt
    · intro hout
      exact absurd rfl (hout loop')
  · -- `handleChanges` returns
    apply h.setWorker hw _ .idle
    · rfl
    · exact (h.worker w hw).uncalled w.destroyed
    · rintro n loop ⟨⟩
    · rintro loop' ⟨⟩
    · intro _ before
      rw [SocketWorker.deque_signal]
      have hcase : before = loop ∨ rank before < rank loop := by
        cases loop <;> cases hnext
        cases before <;> simp [rank]
      have hempty : w.deque before = [] := by
        rcases hcase with rfl | hlt
        · exact hdeque
        · exact hbefore before hlt
      cases before <;> exact hempty

theorem ret (h : s.Ok) (hstep : s.ret = some t) : t.Ok := by
  obtain ⟨n, loop, cur, w, hcontrol, -, hw, rfl, rfl⟩ := ret_cases hstep
  have hloop : s.control.loop? = some (w.serial, loop) := by rw [hcontrol, Control.loop?]
  have hset := h.setWorker hw w (.draining w.serial loop) rfl (h.worker w hw)
  rw [← hw] at hset
  apply hset
  · rintro n loop ⟨rfl, rfl⟩
    exact h.loop_lt _ _ hloop
  · rintro loop' ⟨rfl, rfl⟩
    exact h.drained w loop hw hloop
  · intro hout
    exact absurd rfl (hout loop)

/-- What a constructor does to the descriptors. -/
theorem getSock_construct {a : SocketPtr} {sock : ℤ} {sockets : Arena SocketPtr ℤ}
    (hnew : s.sockets.construct a sock = some sockets) (c : SocketPtr) :
    (sockets.object c).map Prod.snd = if c = a then some sock else s.getSock c := by
  rw [Arena.object_of_construct hnew]
  split_ifs <;> rfl

theorem addRef {a : SocketPtr} {sock : ℤ} {sockets : Arena SocketPtr ℤ} (h : s.Ok)
    (hfree : s.teardown = none) (hnew : s.sockets.construct a sock = some sockets) :
    Ok { s with sockets := sockets }.addRef := by
  have hsize := Arena.size_of_construct hnew
  unfold State.addRef
  split
  · next hfirst =>
      -- the first socket: `new SocketWorker`
      exact {
        count := by rw [hsize, h.count]
        shared := by simp
        tearing := fun hbusy => absurd hfree hbusy
        worker := by
          rintro _ ⟨rfl⟩
          exact SocketWorker.Ok.fresh s.workers _
        serial_lt := by
          rintro _ ⟨rfl⟩
          exact Nat.lt_succ_self _
        loop_lt := fun n loop hloop => Nat.lt_succ_of_lt (h.loop_lt n loop hloop)
        drained := by
          rintro _ loop ⟨rfl⟩ hloop
          exact absurd (h.loop_lt _ loop hloop) (Nat.lt_irrefl _)
        emptied := by
          rintro _ ⟨rfl⟩ - loop
          cases loop <;> rfl }
  · next hmore =>
      exact {
        count := by rw [hsize, h.count]
        shared := by
          have hpos : s.refCounter ≠ 0 := fun hzero => hmore (by rw [hzero])
          constructor
          · intro hnone
            exact absurd (h.shared.mp hnone).1 hpos
          · rintro ⟨hzero, -⟩
            cases hzero
        tearing := fun hbusy => absurd hfree hbusy
        worker := by
          intro w hw
          refine (h.worker w hw).congr fun c hc => ?_
          refine (getSock_construct hnew c).trans (if_neg ?_)
          rintro rfl
          obtain ⟨sock', hsock', -⟩ := (h.worker w hw).live c hc
          rw [getSock, Arena.free_of_construct hnew] at hsock'
          cases hsock'
        serial_lt := h.serial_lt
        loop_lt := h.loop_lt
        drained := h.drained
        emptied := h.emptied }

theorem construct {a : SocketPtr} {sock : ℤ} {registers : Bool} (h : s.Ok)
    (hstep : s.construct a sock registers = some t) : t.Ok := by
  obtain ⟨sockets, huser, hnew, ⟨-, rfl⟩ | ⟨w, -, hw, rfl⟩⟩ := construct_cases hstep
  · exact h.addRef (inUserCode_cases huser).1 hnew
  · have hok := h.addRef (inUserCode_cases huser).1 hnew
    have hsockets : State.sockets { s with sockets := sockets }.addRef = sockets := by
      unfold State.addRef
      split <;> rfl
    have hfresh : a ∉ w.clients := by
      intro hmem
      unfold State.addRef at hw
      split_ifs at hw
      · obtain rfl := Option.some.inj hw
        cases hmem
      · obtain ⟨sock', hsock', -⟩ := (h.worker w hw).live a hmem
        rw [getSock, Arena.free_of_construct hnew] at hsock'
        cases hsock'
    refine hok.setWorker_same hw _ (SocketWorker.serial_registerSocket w a sock)
      ((hok.worker w hw).registerSocket hfresh ?_)
      fun loop => SocketWorker.deque_registerSocket w loop a sock
    rw [getSock, hsockets, getSock_construct hnew, if_pos rfl]

/-- What a destructor does to the descriptors. -/
theorem getSock_destroy (s : State) (a c : SocketPtr) :
    ((s.sockets.destroy a).object c).map Prod.snd = if c = a then none else s.getSock c := by
  rw [Arena.object_destroy]
  split_ifs <;> rfl

theorem destroy {a : SocketPtr} (h : s.Ok) (hstep : s.destroy a = some t) : t.Ok := by
  obtain ⟨i, w, -, hi, hw, rfl⟩ := destroy_cases hstep
  have hobject : s.sockets.object a ≠ none := by
    rw [Ne, ← Arena.serial_eq_none, hi]
    exact Option.some_ne_none _
  have hsize := Arena.size_destroy hobject
  have hcount := h.count
  exact {
    count := by
      change s.refCounter - 1 = (s.sockets.destroy a).size
      omega
    shared := by
      constructor
      · intro hnone
        cases hnone
      · rintro ⟨hzero, hfree⟩
        dsimp only at hzero hfree
        rw [if_pos hzero] at hfree
        cases hfree
    tearing := by
      intro hbusy
      by_contra hmore
      exact hbusy (if_neg hmore)
    worker := by
      rintro _ ⟨rfl⟩
      exact (h.worker w hw).deregisterSocket fun b hb => (getSock_destroy s a b).trans (if_neg hb)
    serial_lt := by
      rintro _ ⟨rfl⟩
      exact h.serial_lt w hw
    loop_lt := h.loop_lt
    drained := by
      rintro _ loop ⟨rfl⟩ hloop loop' hrank
      rw [SocketWorker.deque_deregisterSocket, h.drained w loop hw hloop loop' hrank]
      rfl
    emptied := by
      rintro _ ⟨rfl⟩ hout loop
      rw [SocketWorker.deque_deregisterSocket, h.emptied w hw hout loop]
      rfl }

theorem requestTermination (h : s.Ok) (hstep : s.requestTermination = some t) : t.Ok := by
  obtain ⟨w, hw, hteardown, -, rfl⟩ := requestTermination_cases hstep
  have hset := h.setWorker_same hw
    ({ w with destroyed := true, called := false } : SocketWorker).signal rfl
    ((h.worker w hw).uncalled true)
    fun loop => (SocketWorker.deque_signal _ loop).trans (by cases loop <;> rfl)
  have hzero := h.tearing (by rw [hteardown]; exact Option.some_ne_none _)
  exact { hset with
    shared := by simp
    tearing := fun _ => hzero }

theorem join (h : s.Ok) (hstep : s.join = some t) : t.Ok := by
  obtain ⟨w, hw, hteardown, -, rfl⟩ := join_cases hstep
  have hzero := h.tearing (by rw [hteardown]; exact Option.some_ne_none _)
  exact {
    count := h.count
    shared := by simpa using hzero
    tearing := fun _ => hzero
    worker := by simp
    serial_lt := by simp
    loop_lt := h.loop_lt
    drained := by simp
    emptied := by simp }

/-- Every step keeps the invariant. -/
theorem step {act : Action} (h : s.Ok) (hstep : s.step act = some t) : t.Ok := by
  cases act with
  | thread act => exact h.thread hstep
  | dispatch => exact h.dispatch hstep
  | turn => exact h.turn hstep
  | ret => exact h.ret hstep
  | construct a sock registers => exact h.construct hstep
  | destroy a => exact h.destroy hstep
  | requestTermination => exact h.requestTermination hstep
  | join => exact h.join hstep

/-- Every state of a run from a state that meets the invariant meets it. -/
theorem run {tr : List (State × Action)} (hrun : Runs s tr t) (h : s.Ok) : t.Ok :=
  hrun.invariant (fun _ _ _ hok hstep => hok.step hstep) h

end Ok

/-- **What a constructor does**: the worker that the socket then has is the one there was, or a
new one if there was no socket, and the socket may have registered with it. -/
theorem construct_frame {a : SocketPtr} {sock : ℤ} {registers : Bool} (hok : s.Ok)
    (h : s.construct a sock registers = some t) :
    s.sockets.construct a sock = some t.sockets ∧ t.control = s.control ∧
      t.teardown = s.teardown ∧
      ∃ w, ((s.refCounter = 0 ∧ w = { serial := s.workers }) ∨ s.sta = some w) ∧
        t.sta = some (if registers then w.registerSocket a sock else w) := by
  have haddRef : ∀ sockets : Arena SocketPtr ℤ,
      State.sockets { s with sockets := sockets }.addRef = sockets ∧
        State.control { s with sockets := sockets }.addRef = s.control ∧
        State.teardown { s with sockets := sockets }.addRef = s.teardown ∧
        ∃ w, State.sta { s with sockets := sockets }.addRef = some w ∧
          ((s.refCounter = 0 ∧ w = { serial := s.workers }) ∨ s.sta = some w) := by
    intro sockets
    unfold State.addRef
    split
    · next hfirst => exact ⟨rfl, rfl, rfl, _, rfl, .inl ⟨Nat.succ.inj hfirst, rfl⟩⟩
    · next hmore =>
        have hsome : s.sta ≠ none :=
          fun hnone => hmore (congrArg Nat.succ (hok.shared.mp hnone).1)
        obtain ⟨w, hw⟩ := Option.ne_none_iff_exists'.mp hsome
        exact ⟨rfl, rfl, rfl, w, hw, .inr hw⟩
  obtain ⟨sockets, -, hnew, hcase⟩ := construct_cases h
  obtain ⟨hsockets, hcontrol, hteardown, w, hw, hwhere⟩ := haddRef sockets
  rcases hcase with ⟨rfl, rfl⟩ | ⟨w', rfl, hw', rfl⟩
  · exact ⟨hsockets.symm ▸ hnew, hcontrol, hteardown, w, hwhere, hw⟩
  · obtain rfl : w = w' := Option.some.inj (hw.symm.trans hw')
    exact ⟨hsockets.symm ▸ hnew, hcontrol, hteardown, w, hwhere, rfl⟩

end State

end Select

end Craplib
