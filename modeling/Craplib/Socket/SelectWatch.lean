import Craplib.Socket.SelectDispatch

/-!
# What the select worker watches

* `select_watches` — the thread asks `select` about the descriptors of exactly those sockets
  that live and have registered, and sleeps only when there is none.
* `unasked_not_called` — a new socket is not heard of before the `select` that is in progress
  has returned: nothing wakes the thread up when a socket registers.
* `stale_event` — the condition on the descriptor there is needed.  What `select` has reported
  is looked up by descriptor, and a new socket may have that of one that is gone.
-/

namespace Craplib

namespace Select

open Machine
open Epoll (SocketPtr Callback Control Event)

/-! ## Who is a client -/

/-- The constructor of the socket `i` has registered it, and there was room for its
descriptor. -/
def Enrolled (tr : List (State × Action)) (i : ℕ) : Prop :=
  ∃ p ∈ tr, ∃ a sock, p.2 = .construct a sock true ∧ p.1.sockets.born = i ∧ sock < FD_SETSIZE

theorem enrolled_snoc {tr : List (State × Action)} {t : State} {act : Action} {i : ℕ} :
    Enrolled (tr ++ [(t, act)]) i ↔ Enrolled tr i ∨
      ∃ a sock, act = .construct a sock true ∧ t.sockets.born = i ∧ sock < FD_SETSIZE := by
  simp only [Enrolled, List.mem_append, List.mem_singleton]
  constructor
  · rintro ⟨p, hp | rfl, a, sock, hact⟩
    · exact .inl ⟨p, hp, a, sock, hact⟩
    · exact .inr ⟨a, sock, hact⟩
  · rintro (⟨p, hp, a, sock, hact⟩ | ⟨a, sock, hact⟩)
    · exact ⟨p, .inl hp, a, sock, hact⟩
    · exact ⟨(t, act), .inr rfl, a, sock, hact⟩

/-- A living socket that has registered has the descriptor `sock`. -/
def Watched (tr : List (State × Action)) (s : State) (sock : ℤ) : Prop :=
  ∃ a i, s.sockets.object a = some (i, sock) ∧ Enrolled tr i

namespace State

variable {s t u : State} {w : SocketWorker} {tr : List (State × Action)}

/-- The clients of the worker, if there is one. -/
def clients (s : State) : List SocketPtr := s.sta.elim [] SocketWorker.clients

theorem clients_some (hw : s.sta = some w) : s.clients = w.clients := by
  rw [clients, hw, Option.elim_some]

/-- The clients are the sockets that have registered. -/
structure Enrolls (tr : List (State × Action)) (t : State) : Prop where
  born : ∀ i, Enrolled tr i → i < t.sockets.born
  mem : ∀ a i, t.sockets.serial a = some i → (a ∈ t.clients ↔ Enrolled tr i)

/-- A client is a socket. -/
theorem Ok.client_serial (hok : s.Ok) {a : SocketPtr} (ha : a ∈ s.clients) :
    s.sockets.serial a ≠ none := by
  cases hsta : s.sta with
  | none =>
      rw [clients, hsta] at ha
      cases ha
  | some w =>
      obtain ⟨sock, hsock, -⟩ := (hok.worker w hsta).live a (clients_some hsta ▸ ha)
      intro hnone
      rw [getSock, Arena.serial_eq_none.mp hnone] at hsock
      cases hsock

namespace Enrolls

theorem init : Enrolls [] .init where
  born i h := by
    obtain ⟨p, hp, -⟩ := h
    cases hp
  mem a i h := by cases h

/-- No socket has come or gone. -/
theorem keep {act : Action} (h : Enrolls tr t) (hact : ∀ a sock, act ≠ .construct a sock true)
    (hsockets : u.sockets = t.sockets) (hclients : u.clients = t.clients) :
    Enrolls (tr ++ [(t, act)]) u := by
  have hsame : ∀ i, Enrolled (tr ++ [(t, act)]) i ↔ Enrolled tr i := fun i => by
    rw [enrolled_snoc]
    exact or_iff_left fun ⟨a, sock, hnow, _⟩ => hact a sock hnow
  exact ⟨fun i hi => hsockets ▸ h.born i ((hsame i).mp hi), fun a i ha => by
    rw [hsame, hclients]
    exact h.mem a i (hsockets ▸ ha)⟩

theorem construct {a : SocketPtr} {sock : ℤ} {registers : Bool} (hok : t.Ok) (h : Enrolls tr t)
    (hstep : t.construct a sock registers = some u) :
    Enrolls (tr ++ [(t, .construct a sock registers)]) u := by
  have hsnoc : ∀ i, Enrolled (tr ++ [(t, .construct a sock registers)]) i ↔
      Enrolled tr i ∨ registers = true ∧ t.sockets.born = i ∧ sock < FD_SETSIZE := fun i => by
    rw [enrolled_snoc]
    refine or_congr_right ⟨?_, fun ⟨hreg, hrest⟩ => ⟨a, sock, hreg ▸ rfl, hrest⟩⟩
    rintro ⟨a', sock', hact, hrest⟩
    cases hact
    exact ⟨rfl, hrest⟩
  obtain ⟨hsockets, -, -, w, hwhere, hw'⟩ := construct_frame hok hstep
  have hborn := Arena.born_of_construct hsockets
  have hfree : t.sockets.serial a = none :=
    Arena.serial_eq_none.mpr (Arena.free_of_construct hsockets)
  have hold : t.clients = w.clients := by
    rcases hwhere with ⟨hzero, rfl⟩ | hw
    · cases ht : t.sta with
      | none => rw [clients, ht, Option.elim_none]
      | some w₁ => rw [clients_some ht, hok.clients_eq_nil ht hzero]
    · exact clients_some hw
  have hnew : ∀ c, c ∈ u.clients ↔
      c ∈ t.clients ∨ registers = true ∧ sock < FD_SETSIZE ∧ c = a := by
    intro c
    rw [clients_some hw', hold]
    cases registers with
    | false => simp
    | true =>
        rw [if_pos rfl, SocketWorker.clients_registerSocket]
        split_ifs with hroom <;> simp [hroom]
  constructor
  · intro i hi
    rw [hborn]
    rcases (hsnoc i).mp hi with hi | ⟨-, rfl, -⟩
    · exact Nat.lt_succ_of_lt (h.born i hi)
    · exact Nat.lt_succ_self _
  · intro c i hc
    rw [hnew, hsnoc]
    rw [Arena.serial_of_construct hsockets] at hc
    split_ifs at hc with hca
    · -- the new socket
      obtain rfl := Option.some.inj hc
      subst hca
      have hnot : c ∉ t.clients := fun hmem => hok.client_serial hmem hfree
      have hnever : ¬ Enrolled tr t.sockets.born :=
        fun hin => absurd (h.born _ hin) (Nat.lt_irrefl _)
      simp [hnot, hnever]
    · have hne : t.sockets.born ≠ i := (Nat.ne_of_lt (Arena.serial_lt_born hc)).symm
      rw [h.mem c i hc]
      simp [hca, hne]

theorem destroy {a : SocketPtr} (h : Enrolls tr t) (hstep : t.destroy a = some u) :
    Enrolls (tr ++ [(t, .destroy a)]) u := by
  obtain ⟨i, w, -, -, hw, rfl⟩ := destroy_cases hstep
  have hsame : ∀ i, Enrolled (tr ++ [(t, .destroy a)]) i ↔ Enrolled tr i := fun i => by
    rw [enrolled_snoc]
    exact or_iff_left fun ⟨b, sock, hnow, _⟩ => by cases hnow
  refine ⟨fun i hi => h.born i ((hsame i).mp hi), fun c i hc => ?_⟩
  rw [Arena.serial_destroy] at hc
  split_ifs at hc with hca
  rw [hsame, ← h.mem c i hc, clients_some rfl, clients_some hw,
    SocketWorker.clients_deregisterSocket, List.mem_filter]
  simp [hca]

theorem step {act : Action} (hok : t.Ok) (h : Enrolls tr t) (hstep : t.step act = some u) :
    Enrolls (tr ++ [(t, act)]) u := by
  cases act with
  | thread act =>
      obtain ⟨w, w', hw, hthread, rfl⟩ := thread_cases hstep
      obtain ⟨-, hclients, -⟩ := SocketWorker.threadStep_frame hthread
      refine h.keep (fun _ _ => Action.noConfusion) rfl ?_
      rw [clients_some rfl, clients_some hw, hclients]
  | dispatch =>
      obtain ⟨w, hw, -, -, -, ⟨w', -, hqueue, rfl⟩ | ⟨-, rfl⟩⟩ := dispatch_cases hstep
      · rw [SocketWorker.queueChanges_eq w (hok.worker w hw).live_ne_none] at hqueue
        obtain rfl := Option.some.inj hqueue
        exact h.keep (fun _ _ => Action.noConfusion) rfl (clients_some hw).symm
      · exact h.keep (fun _ _ => Action.noConfusion) rfl (clients_some hw).symm
  | turn =>
      obtain ⟨n, loop, w, -, hw, -, hcase⟩ := turn_cases hstep
      rcases hcase with ⟨cur, rest, -, rfl⟩ | ⟨loop', -, -, rfl⟩ | ⟨-, -, rfl⟩
      · refine h.keep (fun _ _ => Action.noConfusion) rfl ?_
        rw [clients_some rfl, clients_some hw, SocketWorker.clients_popFront]
      · exact h.keep (fun _ _ => Action.noConfusion) rfl rfl
      · exact h.keep (fun _ _ => Action.noConfusion) rfl (clients_some hw).symm
  | ret =>
      obtain ⟨n, loop, cur, w, -, -, -, -, rfl⟩ := ret_cases hstep
      exact h.keep (fun _ _ => Action.noConfusion) rfl rfl
  | construct a sock registers => exact h.construct hok hstep
  | destroy a => exact h.destroy hstep
  | requestTermination =>
      obtain ⟨w, hw, -, -, rfl⟩ := requestTermination_cases hstep
      exact h.keep (fun _ _ => Action.noConfusion) rfl (clients_some hw).symm
  | join =>
      obtain ⟨w, hw, hteardown, -, rfl⟩ := join_cases hstep
      have hzero := hok.tearing (by rw [hteardown]; exact Option.some_ne_none _)
      refine h.keep (fun _ _ => Action.noConfusion) rfl ?_
      rw [clients_some hw, hok.clients_eq_nil hw hzero]
      rfl

theorem run (hrun : Runs .init tr t) : Enrolls tr t := by
  induction hrun with
  | nil => exact init
  | snoc hrun hstep ih => exact ih.step (Ok.init.run hrun) hstep

end Enrolls

theorem watched_iff (hrun : Runs .init tr s) {sock : ℤ} :
    Watched tr s sock ↔ ∃ a ∈ s.clients, s.getSock a = some sock := by
  have henrolls := Enrolls.run hrun
  constructor
  · rintro ⟨a, i, hobject, hin⟩
    refine ⟨a, (henrolls.mem a i (Arena.serial_eq_some.mpr ⟨sock, hobject⟩)).mpr hin, ?_⟩
    rw [getSock, hobject]
    rfl
  · rintro ⟨a, ha, hsock⟩
    obtain ⟨⟨i, sock'⟩, hobject, rfl⟩ := Option.map_eq_some_iff.mp hsock
    exact ⟨a, i, hobject,
      (henrolls.mem a i (Arena.serial_eq_some.mpr ⟨_, hobject⟩)).mp ha⟩

/-- What the thread finds when it gets the mutex of `c`. -/
theorem lock_eq (hok : s.Ok) (hw : s.sta = some w) (hlocking : w.thread = .locking) :
    ∃ t w', s.step (.thread .lock) = some t ∧ t.sta = some w' ∧
      (w.clients = [] ∧ w'.thread = .waiting ∨
        w.clients ≠ [] ∧ ∃ nfds, w'.thread = .selecting nfds ∧
          ∀ loop sock, (sock ∈ w'.sets.of loop ↔ ∃ a ∈ w.clients, s.getSock a = some sock) ∧
            (sock ∈ w'.sets.of loop → sock < nfds ∧ sock < FD_SETSIZE)) := by
  have hworker := hok.worker w hw
  by_cases hnone : w.clients = []
  · have hd : w.d = false := by rw [hworker.flag, hnone]; rfl
    refine ⟨_, { w with thread := .waiting }, step_thread hw ?_, rfl, .inl ⟨hnone, rfl⟩⟩
    unfold SocketWorker.threadStep
    rw [hlocking]
    exact if_neg (by rw [hd]; exact Bool.false_ne_true)
  · have hd : w.d = true := by rw [hworker.flag]; simpa using hnone
    obtain ⟨sets, maxSock, hfill, hsets, -, hmax⟩ :=
      SocketWorker.fillSets_spec hworker.live_ne_none
    refine ⟨_, { w with d := !w.clients.isEmpty, sets := sets,
                        thread := .selecting (maxSock + 1) }, step_thread hw ?_, rfl,
      .inr ⟨hnone, _, rfl, fun loop sock => ⟨hsets loop sock, fun hin => ?_⟩⟩⟩
    · unfold SocketWorker.threadStep
      rw [hlocking]
      dsimp only
      rw [if_pos hd, SocketWorker.prepare, hfill]
      rfl
    · obtain ⟨a, ha, hsock⟩ := (hsets loop sock).mp hin
      obtain ⟨sock', hsock', hroom⟩ := hworker.live a ha
      obtain rfl : sock = sock' := Option.some.inj (hsock.symm.trans hsock')
      exact ⟨Int.lt_add_one_of_le (hmax a ha sock hsock), hroom⟩

end State

/-- **The thread watches the registered sockets.**  In every run of the two threads: while the
thread waits for a client no living socket has registered; and when it gets the mutex it goes on
to `select`, with the descriptors of exactly the living sockets that have registered, all of
them below `nfds` and with room in a set, and to sleep only if there is none. -/
theorem select_watches {tr : List (State × Action)} {s : State} {w : SocketWorker}
    (hrun : Runs .init tr s) (hw : s.sta = some w) :
    (w.thread = .waiting → ∀ sock, ¬ Watched tr s sock) ∧
    (w.thread = .locking → ∃ t w', s.step (.thread .lock) = some t ∧ t.sta = some w' ∧
      ((∀ sock, ¬ Watched tr s sock) ∧ w'.thread = .waiting ∨
        (∃ sock, Watched tr s sock) ∧ ∃ nfds, w'.thread = .selecting nfds ∧
          ∀ loop sock, (sock ∈ w'.sets.of loop ↔ Watched tr s sock) ∧
            (sock ∈ w'.sets.of loop → sock < nfds ∧ sock < FD_SETSIZE))) := by
  have hok := State.Ok.init.run hrun
  have hwatched : ∀ sock, Watched tr s sock ↔ ∃ a ∈ w.clients, s.getSock a = some sock :=
    fun sock => by rw [State.watched_iff hrun, State.clients_some hw]
  have hnobody : w.clients = [] → ∀ sock, ¬ Watched tr s sock := fun hnone sock hin => by
    obtain ⟨a, ha, -⟩ := (hwatched sock).mp hin
    rw [hnone] at ha
    cases ha
  refine ⟨fun hwait => hnobody ((hok.worker w hw).waiting hwait), fun hlocking => ?_⟩
  obtain ⟨t, w', hstep, hw', ⟨hnone, hthread⟩ | ⟨hsome, nfds, hthread, hsets⟩⟩ :=
    State.lock_eq hok hw hlocking
  · exact ⟨t, w', hstep, hw', .inl ⟨hnobody hnone, hthread⟩⟩
  · refine ⟨t, w', hstep, hw', .inr ⟨?_, nfds, hthread, fun loop sock => ?_⟩⟩
    · obtain ⟨a, ha⟩ := List.exists_mem_of_ne_nil _ hsome
      obtain ⟨sock, hsock, -⟩ := (hok.worker w hw).live a ha
      exact ⟨sock, (hwatched sock).mpr ⟨a, ha, hsock⟩⟩
    · rw [hwatched]
      exact hsets loop sock

/-- Three sockets, of which one has been refused and one is gone. -/
theorem select_watches_example : ∃ tr s w, Runs .init tr s ∧ s.sta = some w ∧
    w.thread = .locking ∧ actions tr = [.construct 1 3 true, .construct 2 1024 true,
      .construct 3 5 true, .destroy 1] ∧
    ((w.thread = .waiting → ∀ sock, ¬ Watched tr s sock) ∧
    (w.thread = .locking → ∃ t w', s.step (.thread .lock) = some t ∧ t.sta = some w' ∧
      ((∀ sock, ¬ Watched tr s sock) ∧ w'.thread = .waiting ∨
        (∃ sock, Watched tr s sock) ∧ ∃ nfds, w'.thread = .selecting nfds ∧
          ∀ loop sock, (sock ∈ w'.sets.of loop ↔ Watched tr s sock) ∧
            (sock ∈ w'.sets.of loop → sock < nfds ∧ sock < FD_SETSIZE)))) := by
  have hexec : ((exec State.step .init [.construct 1 3 true, .construct 2 1024 true,
      .construct 3 5 true, .destroy 1]).bind State.sta).map SocketWorker.thread =
        some .locking := by decide
  obtain ⟨w, hsta, hthread⟩ := Option.map_eq_some_iff.mp hexec
  obtain ⟨s, hs, hw⟩ := Option.bind_eq_some_iff.mp hsta
  obtain ⟨tr, hrun, hacts⟩ := exec_run _ _ _ _ hs
  exact ⟨tr, s, w, hrun, hw, hthread, hacts, select_watches hrun hw⟩

/-! ## What a new socket has to wait for -/

namespace SocketWorker

/-- The worker has something for the client at `a`, or for its descriptor. -/
def Heard (w : SocketWorker) (a : SocketPtr) (sock : ℤ) : Prop :=
  ∃ loop, sock ∈ w.sets.of loop ∨ sock ∈ w.copies.of loop ∨ a ∈ w.deque loop

variable {w w' : SocketWorker} {a : SocketPtr} {sock : ℤ} {getSock : SocketPtr → Option ℤ}

theorem Heard.of_same (hsets : w'.sets = w.sets) (hcopies : w'.copies = w.copies)
    (hdeque : ∀ loop, a ∈ w'.deque loop → a ∈ w.deque loop) (h : w'.Heard a sock) :
    w.Heard a sock := by
  obtain ⟨loop, hin | hin | hin⟩ := h
  · exact ⟨loop, .inl (hsets ▸ hin)⟩
  · exact ⟨loop, .inr (.inl (hcopies ▸ hin))⟩
  · exact ⟨loop, .inr (.inr (hdeque loop hin))⟩

/-- Only in `lock` does the thread ask about more descriptors. -/
theorem Heard.of_thread {act : ThreadAction} (hstep : w.threadStep getSock act = some w')
    (hact : act ≠ .lock) (h : w'.Heard a sock) : w.Heard a sock := by
  obtain ⟨-, -, hdeque, -, -⟩ := threadStep_frame hstep
  have hqueued : ∀ loop, a ∈ w'.deque loop → a ∈ w.deque loop := fun loop hin => hdeque loop ▸ hin
  cases act with
  | lock => exact absurd rfl hact
  | select left =>
      obtain ⟨nfds, -, hleft, rfl⟩ := select_cases hstep
      obtain ⟨loop, hin | hin | hin⟩ := h
      · refine ⟨loop, .inl ?_⟩
        cases loop
        · exact (hleft.2.2 sock hin).1
        · exact (hleft.1 sock hin).1
        · exact (hleft.2.1 sock hin).1
      · exact ⟨loop, .inr (.inl hin)⟩
      · exact ⟨loop, .inr (.inr (hqueued loop hin))⟩
  | fail =>
      obtain ⟨nfds, -, rfl⟩ := fail_cases hstep
      exact h.of_same rfl rfl hqueued
  | enter =>
      obtain ⟨-, ⟨-, rfl⟩ | ⟨-, -, rfl⟩ | ⟨-, -, rfl⟩⟩ := enter_cases hstep
      all_goals exact h.of_same rfl rfl hqueued
  | work =>
      obtain ⟨-, rfl⟩ := work_cases hstep
      obtain ⟨loop, hin | hin | hin⟩ := h
      · exact ⟨loop, .inl hin⟩
      · exact ⟨loop, .inl hin⟩
      · exact ⟨loop, .inr (.inr (hqueued loop hin))⟩
  | wake =>
      obtain ⟨-, rfl⟩ | ⟨-, rfl⟩ := wake_cases hstep
      all_goals exact h.of_same rfl rfl hqueued

/-- A socket that registers is not heard of. -/
theorem Heard.of_registers {registers : Bool} {b : SocketPtr} {sock' : ℤ}
    (h : (if registers then w.registerSocket b sock' else w).Heard a sock) : w.Heard a sock := by
  cases registers with
  | false => exact h
  | true =>
      rw [if_pos rfl] at h
      refine h.of_same ?_ ?_ fun loop hin => ?_
      · unfold registerSocket
        split_ifs <;> rfl
      · unfold registerSocket
        split_ifs <;> rfl
      · rwa [deque_registerSocket] at hin

theorem not_heard_fresh (serial : ℕ) : ¬ Heard { serial := serial } a sock := by
  rintro ⟨loop, hin | hin | hin⟩ <;> cases loop <;> simp [FdSets.of, deque] at hin

/-- What `handleChanges` queues has been copied. -/
theorem Heard.of_queueChanges (hlive : ∀ b ∈ w.clients, getSock b ≠ none)
    (hstep : w.queueChanges getSock = some w') (hsock : getSock a = some sock)
    (h : w'.Heard a sock) : w.Heard a sock := by
  rw [queueChanges_eq w hlive] at hstep
  obtain rfl := Option.some.inj hstep
  obtain ⟨loop, hin | hin | hin⟩ := h
  · exact ⟨loop, .inl hin⟩
  · exact ⟨loop, .inr (.inl hin)⟩
  · have hcase : a ∈ w.deque loop ∨ a ∈ w.clients.filter (isSet w.copies getSock loop) := by
      cases loop <;> exact List.mem_append.mp hin
    rcases hcase with hin | hin
    · exact ⟨loop, .inr (.inr hin)⟩
    · have hset := (List.mem_filter.mp hin).2
      rw [isSet, hsock] at hset
      exact ⟨loop, .inr (.inl (by simpa using hset))⟩

end SocketWorker

namespace State

variable {s t u : State} {w : SocketWorker} {a : SocketPtr} {i : ℕ}

/-- The worker has nothing for the socket `i`, which was constructed at `a`, nor for its
descriptor. -/
structure Unasked (s : State) (a : SocketPtr) (i : ℕ) : Prop where
  born : i < s.sockets.born
  home : ∀ b, s.sockets.serial b = some i → b = a
  unheard : ∀ w sock, s.sta = some w → s.sockets.object a = some (i, sock) → ¬ w.Heard a sock

namespace Unasked

/-- Nothing has been heard that was not there before. -/
theorem mono (h : s.Unasked a i) (hborn : s.sockets.born ≤ t.sockets.born)
    (hsockets : ∀ b sock, t.sockets.object b = some (i, sock) →
      s.sockets.object b = some (i, sock))
    (hworker : ∀ w' sock, t.sta = some w' → s.getSock a = some sock → w'.Heard a sock →
      ∃ w, s.sta = some w ∧ w.Heard a sock) : t.Unasked a i where
  born := Nat.lt_of_lt_of_le h.born hborn
  home b hb := by
    obtain ⟨sock, hobject⟩ := Arena.serial_eq_some.mp hb
    exact h.home b (Arena.serial_eq_some.mpr ⟨sock, hsockets b sock hobject⟩)
  unheard w' sock hw' hobject hheard := by
    have hbefore := hsockets a sock hobject
    obtain ⟨w, hw, hheard⟩ := hworker w' sock hw' (by rw [getSock, hbefore]; rfl) hheard
    exact h.unheard w sock hw hbefore hheard

/-- The same, for the one worker and the same sockets. -/
theorem worker (h : s.Unasked a i) (hw : s.sta = some w) (hsockets : t.sockets = s.sockets)
    (hworker : ∀ w' sock, t.sta = some w' → s.getSock a = some sock → w'.Heard a sock →
      w.Heard a sock) : t.Unasked a i :=
  h.mono (hsockets ▸ Nat.le_refl _) (fun _ _ hobject => hsockets ▸ hobject)
    fun w' sock hw' hsock hheard => ⟨w, hw, hworker w' sock hw' hsock hheard⟩

theorem step {act : Action} (hok : s.Ok) (h : s.Unasked a i) (hstep : s.step act = some t)
    (hact : act ≠ .thread .lock) : t.Unasked a i := by
  cases act with
  | thread act =>
      obtain ⟨w, w', hw, hthread, rfl⟩ := thread_cases hstep
      refine h.worker hw rfl ?_
      rintro _ sock ⟨rfl⟩ - hheard
      exact hheard.of_thread hthread fun hlock => hact (hlock ▸ rfl)
  | dispatch =>
      obtain ⟨w, hw, -, -, -, ⟨w', -, hqueue, rfl⟩ | ⟨-, rfl⟩⟩ := dispatch_cases hstep
      · refine h.worker hw rfl ?_
        rintro _ sock ⟨rfl⟩ hsock hheard
        exact hheard.of_queueChanges (hok.worker w hw).live_ne_none hqueue hsock
      · refine h.worker hw rfl ?_
        rintro _ sock ⟨rfl⟩ - hheard
        exact hheard.of_same rfl rfl fun loop hin => by
          cases loop <;> exact hin
  | turn =>
      obtain ⟨n, loop, w, -, hw, -, hcase⟩ := turn_cases hstep
      rcases hcase with ⟨cur, rest, -, rfl⟩ | ⟨loop', -, -, rfl⟩ | ⟨-, -, rfl⟩
      · refine h.worker hw rfl ?_
        rintro _ sock ⟨rfl⟩ - hheard
        refine hheard.of_same (by cases loop <;> rfl) (by cases loop <;> rfl) fun loop' hin => ?_
        rw [SocketWorker.deque_popFront] at hin
        split_ifs at hin with hl
        · exact hl ▸ List.mem_of_mem_tail hin
        · exact hin
      · refine h.worker hw rfl fun w' sock hw' _ hheard => ?_
        obtain rfl : w = w' := Option.some.inj (hw.symm.trans hw')
        exact hheard
      · refine h.worker hw rfl ?_
        rintro _ sock ⟨rfl⟩ - hheard
        exact hheard.of_same rfl rfl fun loop' hin => by
          cases loop' <;> exact hin
  | ret =>
      obtain ⟨n, loop, cur, w, -, -, hw, -, rfl⟩ := ret_cases hstep
      refine h.worker hw rfl fun w' sock hw' _ hheard => ?_
      obtain rfl : w = w' := Option.some.inj (hw.symm.trans hw')
      exact hheard
  | construct b sock registers =>
      obtain ⟨hsockets, -, -, w, hwhere, hw'⟩ := construct_frame hok hstep
      refine h.mono ?_ (fun c sock' hobject => ?_) fun w₁ sock' hw₁ _ hheard => ?_
      · rw [Arena.born_of_construct hsockets]
        exact Nat.le_succ _
      · rw [Arena.object_of_construct hsockets] at hobject
        split_ifs at hobject
        · cases hobject
          exact absurd h.born (Nat.lt_irrefl _)
        · exact hobject
      · obtain rfl := Option.some.inj (hw'.symm.trans hw₁)
        have hbefore := hheard.of_registers
        rcases hwhere with ⟨-, rfl⟩ | hw
        · exact absurd hbefore (SocketWorker.not_heard_fresh _)
        · exact ⟨w, hw, hbefore⟩
  | destroy b =>
      obtain ⟨j, w, -, -, hw, rfl⟩ := destroy_cases hstep
      refine h.mono (Nat.le_refl _) (fun c sock hobject => ?_) ?_
      · rw [Arena.object_destroy] at hobject
        split_ifs at hobject
        exact hobject
      · rintro _ sock ⟨rfl⟩ - hheard
        refine ⟨w, hw, hheard.of_same ?_ ?_ fun loop hin => ?_⟩
        · rfl
        · rfl
        · rw [SocketWorker.deque_deregisterSocket] at hin
          exact List.mem_of_mem_filter hin
  | requestTermination =>
      obtain ⟨w, hw, -, -, rfl⟩ := requestTermination_cases hstep
      refine h.worker hw rfl ?_
      rintro _ sock ⟨rfl⟩ - hheard
      exact hheard.of_same rfl rfl fun loop hin => by
        cases loop <;> exact hin
  | join =>
      obtain ⟨w, hw, -, -, rfl⟩ := join_cases hstep
      exact h.worker hw rfl fun w' sock hw' => by cases hw'

/-- A socket that nothing has been heard of is not called. -/
theorem not_called {act : Action} (h : s.Unasked a i) (cb : Callback) :
    s.event act ≠ some (i, .called cb) := by
  intro hevent
  obtain ⟨cur, hcall, hserial⟩ := event_called hevent
  obtain rfl := h.home cur hserial
  obtain ⟨n, w, rest, -, hw, hdeque⟩ := calls_cases hcall
  obtain ⟨sock, hobject⟩ := Arena.serial_eq_some.mp hserial
  exact h.unheard w sock hw hobject ⟨cb, .inr (.inr (by rw [hdeque]; exact List.mem_cons_self))⟩

/-- A new socket, with a descriptor that the worker does not have in a set. -/
theorem of_construct {sock : ℤ} {registers : Bool} (hok : s.Ok)
    (hstep : s.construct a sock registers = some t)
    (hfresh : ∀ w, s.sta = some w → ∀ loop, sock ∉ w.sets.of loop ∧ sock ∉ w.copies.of loop) :
    t.Unasked a s.sockets.born := by
  obtain ⟨hsockets, -, -, w, hwhere, hw'⟩ := construct_frame hok hstep
  refine ⟨?_, fun b hb => ?_, fun w₁ sock' hw₁ hobject hheard => ?_⟩
  · rw [Arena.born_of_construct hsockets]
    exact Nat.lt_succ_self _
  · rw [Arena.serial_of_construct hsockets] at hb
    split_ifs at hb with hba
    · exact hba
    · exact absurd (Arena.serial_lt_born hb) (Nat.lt_irrefl _)
  · obtain rfl : sock = sock' := by
      rw [Arena.object_of_construct hsockets, if_pos rfl] at hobject
      cases hobject
      rfl
    obtain rfl := Option.some.inj (hw'.symm.trans hw₁)
    have hbefore := hheard.of_registers
    rcases hwhere with ⟨-, rfl⟩ | hw
    · exact SocketWorker.not_heard_fresh _ hbefore
    · obtain ⟨loop, hin | hin | hin⟩ := hbefore
      · exact (hfresh w hw loop).1 hin
      · exact (hfresh w hw loop).2 hin
      · have hclient := ((hok.worker w hw).queued loop).subset hin
        exact hok.client_serial (clients_some hw ▸ hclient)
          (Arena.serial_eq_none.mpr (Arena.free_of_construct hsockets))

end Unasked

end State

/-- **A new socket waits for the `select` in progress.**  If its descriptor is not in a set of the
worker when it is constructed, then in every run from there it is not called as long as the
thread has not come back to the mutex of `c` for the next `select`. -/
theorem unasked_not_called {tr₀ tr : List (State × Action)} {s s' t : State} {a : SocketPtr}
    {sock : ℤ} {registers : Bool} (hreach : Runs .init tr₀ s)
    (hconstruct : s.step (.construct a sock registers) = some s')
    (hfresh : ∀ w, s.sta = some w → ∀ loop, sock ∉ w.sets.of loop ∧ sock ∉ w.copies.of loop)
    (hrun : Runs s' tr t) (hwait : .thread .lock ∉ actions tr) :
    s'.sockets.serial a = some s.sockets.born ∧
      ∀ cb, .called cb ∉ State.history s.sockets.born tr := by
  have hok := State.Ok.init.run hreach
  have hok' : s'.Ok := hok.construct hconstruct
  have hstart : s'.Unasked a s.sockets.born := .of_construct hok hconstruct hfresh
  constructor
  · rw [Arena.serial_of_construct (State.construct_frame hok hconstruct).1, if_pos rfl]
  · suffices hboth : t.Unasked a s.sockets.born ∧
        ∀ cb, .called cb ∉ State.history s.sockets.born tr from hboth.2
    clear hconstruct
    induction hrun with
    | nil => exact ⟨hstart, fun cb hin => by simp at hin⟩
    | @snoc tr t u act hrun hstep ih =>
        rw [actions_append, List.mem_append, not_or] at hwait
        obtain ⟨hunasked, hnever⟩ := ih hwait.1
        refine ⟨hunasked.step (hok'.run hrun) hstep fun hact => hwait.2 (by simp [actions, hact]),
          fun cb hin => ?_⟩
        rw [State.history, history_snoc, List.mem_append, Option.mem_toList, eventAbout_eq_some]
          at hin
        rcases hin with hin | hin
        · exact hnever cb hin
        · exact hunasked.not_called cb hin

/-- A second socket registers while the thread is in `select`; the first gets its calls. -/
theorem unasked_not_called_example : ∃ tr₀ tr s s' t, Runs .init tr₀ s ∧
    actions tr₀ = [.construct 1 3 true, .thread .lock] ∧
    s.step (.construct 2 4 true) = some s' ∧ Runs s' tr t ∧
    actions tr = [.thread (.select ⟨{3}, ∅, ∅⟩), .thread .enter, .thread .work, .dispatch, .turn,
      .ret, .turn, .turn, .turn] ∧
    s'.sockets.serial 2 = some s.sockets.born ∧
      ∀ cb, .called cb ∉ State.history s.sockets.born tr := by
  have hexec : ((exec State.step .init [.construct 1 3 true, .thread .lock]).bind fun s =>
      (s.step (.construct 2 4 true)).bind fun s' => (exec State.step s'
        [.thread (.select ⟨{3}, ∅, ∅⟩), .thread .enter, .thread .work, .dispatch, .turn, .ret,
          .turn, .turn, .turn]).map fun _ => s.sta.map fun w => (w.sets, w.copies)) =
      some (some (⟨{3}, {3}, {3}⟩, {})) := by decide
  obtain ⟨s, hs, hexec⟩ := Option.bind_eq_some_iff.mp hexec
  obtain ⟨s', hs', hexec⟩ := Option.bind_eq_some_iff.mp hexec
  obtain ⟨t, ht, hsta⟩ := Option.map_eq_some_iff.mp hexec
  obtain ⟨w, hw, hsets⟩ := Option.map_eq_some_iff.mp hsta
  obtain ⟨tr₀, hreach, hacts₀⟩ := exec_run _ _ _ _ hs
  obtain ⟨tr, hrun, hacts⟩ := exec_run _ _ _ _ ht
  rw [Prod.mk.injEq] at hsets
  refine ⟨tr₀, tr, s, s', t, hreach, hacts₀, hs', hrun, hacts,
    unasked_not_called hreach hs' (fun w' hw' loop => ?_) hrun (by simp [hacts])⟩
  obtain rfl : w = w' := Option.some.inj (hw.symm.trans hw')
  rw [hsets.1, hsets.2]
  cases loop <;> decide

/-- Between the report and the dispatch the socket that it is about goes, and a new one with its
descriptor comes: the new one is called, though `select` has not been asked about it. -/
theorem stale_event : ∃ tr₀ tr s s' t, Runs .init tr₀ s ∧
    s.step (.construct 2 3 true) = some s' ∧ Runs s' tr t ∧ .thread .lock ∉ actions tr ∧
    .called .onCanRead ∈ State.history s.sockets.born tr := by
  have hexec : ((exec State.step .init [.construct 1 3 true, .construct 5 4 true, .thread .lock,
      .thread (.select ⟨{3}, ∅, ∅⟩), .thread .enter, .thread .work, .destroy 1]).bind fun s =>
        (s.step (.construct 2 3 true)).bind fun s' =>
          (exec State.step s' [.dispatch, .turn]).map fun _ =>
            decide (.called .onCanRead ∈
              State.history s.sockets.born (trace State.step s' [.dispatch, .turn]))) =
      some true := by decide
  obtain ⟨s, hs, hexec⟩ := Option.bind_eq_some_iff.mp hexec
  obtain ⟨s', hs', hexec⟩ := Option.bind_eq_some_iff.mp hexec
  obtain ⟨t, ht, hcalled⟩ := Option.map_eq_some_iff.mp hexec
  obtain ⟨tr₀, hreach, -⟩ := exec_run _ _ _ _ hs
  obtain ⟨hrun, hacts⟩ := exec_trace _ _ _ _ ht
  exact ⟨tr₀, _, s, s', t, hreach, hs', hrun, by simp [hacts], of_decide_eq_true hcalled⟩

end Select

end Craplib
