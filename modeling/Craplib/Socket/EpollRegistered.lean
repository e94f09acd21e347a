import Craplib.Socket.EpollProgress

/-!
# A registered socket that is lost

`onCall` deregisters a socket after its `onDisconnect` has returned, and all it has kept
of the socket is the address.  A delegate that reconnects in `onDisconnect` destroys the
socket and constructs another one; when the allocator puts that one where the old one
was, `deregisterSocket` takes the new registration away, and the new socket never hears
of an event again.

`registered_stays_iff` says that this is the only way in which a registered socket is
lost: the registrations stay as they should all along a run exactly when no
`onDisconnect` returns with a socket registered at its address that has not had
`onDisconnect` itself.
-/

namespace Craplib

namespace Epoll

open Machine

namespace State

variable {s t : State}

/-- The socket whose registration an action brings about: `registerSocket` gets to
`clients.insert` for it. -/
def registers (s : State) : Action → Option ℕ
  | .construct _ (some true) =>
      if s.clients.card ≥ MAX_CONNECTIONS - 1 then none else some s.sockets.born
  | _ => none

/-- The sockets registered successfully in a trace. -/
def registered (tr : List (State × Action)) : List ℕ :=
  tr.filterMap fun p => p.1.registers p.2

/-- **Registered sockets stay registered.**  Every socket that was registered
successfully, is alive and has not had `onDisconnect` is in `clients`. -/
def Kept (tr : List (State × Action)) (s : State) : Prop :=
  ∀ a i, i ∈ registered tr → s.sockets.serial a = some i →
    .called .onDisconnect ∉ history i tr → a ∈ s.clients

/-- When an `onDisconnect` returns, a socket that is registered at its address is one that
has had `onDisconnect`: the delegate has put no new one there. -/
def NotReplaced (tr : List (State × Action)) (p : State × Action) : Prop :=
  ∀ n cur i, p.2 = .ret → p.1.control = .calling n .onDisconnect cur →
    p.1.RegisteredAt cur i → .called .onDisconnect ∈ history i tr

/-! ## What was registered -/

theorem registered_snoc (tr : List (State × Action)) (s : State) (act : Action) :
    registered (tr ++ [(s, act)]) = registered tr ++ (s.registers act).toList := by
  unfold registered
  rw [List.filterMap_append]
  cases h : s.registers act <;> simp [h]

theorem registers_cases {act : Action} {i : ℕ} (h : s.registers act = some i) :
    ∃ a, act = .construct a (some true) ∧ s.clients.card < MAX_CONNECTIONS - 1 ∧
      i = s.sockets.born := by
  unfold registers at h
  split at h
  · next a =>
      split at h
      · cases h
      · next hroom => exact ⟨a, rfl, Nat.lt_of_not_le hroom, (Option.some.inj h).symm⟩
  · cases h

/-- A constructor that registers its socket puts it in `clients`. -/
theorem registeredAt_of_registers {act : Action} {i : ℕ} (hstep : s.step act = some t)
    (h : s.registers act = some i) : ∃ a, t.RegisteredAt a i := by
  obtain ⟨a, rfl, hroom, rfl⟩ := registers_cases h
  have hcon : s.construct a (some true) = some t := hstep
  obtain ⟨-, hnew, -⟩ := construct_frame hcon
  obtain ⟨sockets, -, -, ⟨hnone, -⟩ | ⟨added, w, hadded, hw, rfl⟩⟩ := construct_cases hcon
  · cases hnone
  · obtain rfl : true = added := Option.some.inj hadded
    refine ⟨a, ?_, ?_⟩
    · rw [Arena.serial_of_construct hnew, if_pos rfl]
    · have hcard : w.clients.card < MAX_CONNECTIONS - 1 := by
        rw [← clients_some hw]
        exact (Finset.card_le_card (clients_addRef_subset _)).trans_lt hroom
      rw [clients_some rfl, SocketWorker.registerSocket, if_neg (Nat.not_le_of_lt hcard)]
      exact Finset.mem_insert_self a _

/-- A new worker starts where there were no registrations. -/
theorem clients_addRef (h : s.sta = none ↔ s.refCounter = 0) : s.addRef.clients = s.clients := by
  unfold addRef
  split
  · next hfirst =>
      rw [clients_some rfl, clients_none (h.mpr (Nat.succ.inj hfirst))]
  · rfl

/-- The sockets of the state after a step are those before it, and the one constructed. -/
theorem serial_lt_of_step {act : Action} {a : SocketPtr} {i : ℕ} (hstep : s.step act = some t)
    (h : t.sockets.serial a = some i) :
    i < s.sockets.born ∨ ∃ registers, act = .construct a registers := by
  cases act with
  | collect batch =>
      obtain ⟨w, -, -, rfl⟩ := collect_cases hstep
      exact .inl (Arena.serial_lt_born h)
  | dispatch =>
      obtain ⟨w, -, -, -, rfl⟩ := dispatch_cases hstep
      exact .inl (Arena.serial_lt_born h)
  | turn =>
      rw [(turn_frame hstep).1] at h
      exact .inl (Arena.serial_lt_born h)
  | ret =>
      obtain ⟨n, loop, cur, w, -, -, rfl, rfl⟩ := ret_cases hstep
      exact .inl (Arena.serial_lt_born h)
  | construct a' registers =>
      rw [Arena.serial_of_construct (construct_frame hstep).2.1] at h
      split_ifs at h with ha
      · exact .inr ⟨registers, by rw [ha]⟩
      · exact .inl (Arena.serial_lt_born h)
  | destroy a' =>
      rw [(destroy_frame hstep).2.1, Arena.serial_destroy] at h
      split_ifs at h
      exact .inl (Arena.serial_lt_born h)

/-- A new socket is registered by `registerSocket` only. -/
theorem registers_of_registeredAt (hok : s.Ok) {act : Action} {a : SocketPtr} {i : ℕ}
    (hstep : s.step act = some t) (h : t.RegisteredAt a i) (hborn : s.sockets.born ≤ i) :
    s.registers act = some i := by
  have hnew : i = s.sockets.born := (registered_of_step hstep h).resolve_left fun hold =>
    absurd (Arena.serial_lt_born hold.1) (Nat.not_lt_of_le hborn)
  subst hnew
  obtain ⟨registers, rfl⟩ := (serial_lt_of_step hstep h.1).resolve_left (Nat.lt_irrefl _)
  -- the address was free, so the registration is not an old one
  have hcon : s.construct a registers = some t := hstep
  have hnot : a ∉ s.clients := by
    intro hin
    have hfree := Arena.free_of_construct (construct_frame hcon).2.1
    exact hok.live a hin (Arena.serial_eq_none.mpr hfree)
  obtain ⟨sockets, -, -, ⟨rfl, rfl⟩ | ⟨added, w, rfl, hw, rfl⟩⟩ := construct_cases hcon
  · exact absurd (clients_addRef_subset _ h.2) hnot
  · have hclients := clients_addRef (s := { s with sockets := sockets }) hok.shared
    rw [clients_some hw] at hclients
    change w.clients = s.clients at hclients
    have hin := h.2
    rw [clients_some rfl, SocketWorker.registerSocket, hclients] at hin
    split_ifs at hin with hroom hadded
    · exact absurd (hclients ▸ hin) hnot
    · exact absurd (hclients ▸ hin) hnot
    · obtain rfl : added = true := by simpa using hadded
      rw [registers, if_neg hroom]

/-- What a trace has registered has been constructed in it. -/
theorem lt_born_of_registered {tr : List (State × Action)} (hrun : Runs .init tr s) {i : ℕ}
    (h : i ∈ registered tr) : i < s.sockets.born := by
  induction hrun with
  | nil => simp [registered] at h
  | @snoc tr s t act hrun hstep ih =>
      rw [registered_snoc] at h
      rcases List.mem_append.mp h with hbefore | hnow
      · exact Nat.lt_of_lt_of_le (ih hbefore) (born_le_of_step hstep)
      · rw [Option.mem_toList] at hnow
        obtain ⟨a, hserial, -⟩ := registeredAt_of_registers hstep hnow
        exact Arena.serial_lt_born hserial

/-- A socket that is registered was registered in the trace. -/
theorem registered_of_registeredAt {tr : List (State × Action)} (hrun : Runs .init tr s)
    {a : SocketPtr} {i : ℕ} (h : s.RegisteredAt a i) : i ∈ registered tr := by
  induction hrun with
  | nil => exact absurd h.2 (by simp [init, clients])
  | @snoc tr s t act hrun hstep ih =>
      rw [registered_snoc, List.mem_append, Option.mem_toList]
      rcases registered_of_step hstep h with hbefore | hnow
      · exact .inl (ih hbefore)
      · exact .inr (registers_of_registeredAt (Ok.init.run hrun) hstep h (Nat.le_of_eq hnow.symm))

/-! ## What the steps do to the registrations -/

theorem clients_turn (h : s.turn = some t) : t.clients = s.clients := by
  obtain ⟨n, loop, w, -, hw, rfl, hcase⟩ := turn_cases h
  rw [clients_some hw]
  rcases hcase with ⟨cur, rest, -, -, rfl⟩ | ⟨cur, rest, -, hmem, rfl⟩ |
    ⟨loop', -, -, rfl⟩ | ⟨-, -, rfl⟩
  · rw [clients_some rfl, SocketWorker.clients_popFront]
  · -- the disconnect loop deregisters a socket that is not registered
    rw [clients_some rfl]
    cases loop with
    | onDisconnect => exact Finset.erase_eq_of_notMem hmem
    | _ => rfl
  · exact clients_some hw
  · rw [clients_some rfl]

/-- A registration is lost when the socket is destroyed, or when an `onDisconnect` returns
that was called through its address. -/
theorem mem_clients_of_step (hok : s.Ok) {act : Action} (hstep : s.step act = some t)
    {a : SocketPtr} {i : ℕ} (h : s.RegisteredAt a i) (hserial : t.sockets.serial a = some i)
    (hret : act = .ret → ∀ n, s.control ≠ .calling n .onDisconnect a) : a ∈ t.clients := by
  cases act with
  | collect batch =>
      obtain ⟨w, hw, -, rfl⟩ := collect_cases hstep
      rw [clients_some rfl, SocketWorker.clients_run, ← clients_some hw]
      exact h.2
  | dispatch =>
      obtain ⟨w, -, -, -, rfl⟩ := dispatch_cases hstep
      exact h.2
  | turn =>
      rw [clients_turn hstep]
      exact h.2
  | ret =>
      obtain ⟨n, loop, cur, w, hcontrol, hw, rfl, rfl⟩ := ret_cases hstep
      have hin := h.2
      rw [clients_some hw] at hin
      rw [clients_some rfl]
      cases loop with
      | onDisconnect =>
          refine Finset.mem_erase.mpr ⟨?_, hin⟩
          rintro rfl
          exact hret rfl _ hcontrol
      | _ => exact hin
  | construct a' registers =>
      obtain ⟨w, hw⟩ : ∃ w, s.sta = some w := by
        rw [← Option.ne_none_iff_exists']
        intro hnone
        have hin := h.2
        rw [clients_none hnone] at hin
        exact absurd hin (Finset.notMem_empty a)
      have hin := h.2
      rw [clients_some hw] at hin
      rcases construct_worker hok hw hstep with ht | ⟨added, ht⟩
      · rw [clients_some ht]
        exact hin
      · rw [clients_some ht]
        exact SocketWorker.subset_clients_registerSocket w a' added hin
  | destroy a' =>
      have hdestroy : s.destroy a' = some t := hstep
      obtain ⟨j, w, -, -, hw, -⟩ := destroy_cases hdestroy
      rw [clients_some (destroy_worker hok hw hdestroy hserial)]
      have hin := h.2
      rw [clients_some hw] at hin
      refine Finset.mem_erase.mpr ⟨?_, hin⟩
      rintro rfl
      rw [(destroy_frame hdestroy).2.1, Arena.serial_destroy, if_pos rfl] at hserial
      cases hserial

/-- A socket that lives after a step and is not new lived before it. -/
theorem serial_of_step {act : Action} (hstep : s.step act = some t) {a : SocketPtr} {i : ℕ}
    (h : t.sockets.serial a = some i) (hold : i < s.sockets.born) :
    s.sockets.serial a = some i := by
  cases act with
  | collect batch =>
      obtain ⟨w, -, -, rfl⟩ := collect_cases hstep
      exact h
  | dispatch =>
      obtain ⟨w, -, -, -, rfl⟩ := dispatch_cases hstep
      exact h
  | turn => rwa [(turn_frame hstep).1] at h
  | ret =>
      obtain ⟨n, loop, cur, w, -, -, rfl, rfl⟩ := ret_cases hstep
      exact h
  | construct a' registers =>
      rw [Arena.serial_of_construct (construct_frame hstep).2.1] at h
      split_ifs at h with ha
      · cases h
        exact absurd hold (Nat.lt_irrefl _)
      · exact h
  | destroy a' =>
      rw [(destroy_frame hstep).2.1, Arena.serial_destroy] at h
      split_ifs at h
      exact h

/-! ## Where registrations are lost -/

theorem mem_history_snoc {tr : List (State × Action)} {act : Action} {i : ℕ} {e : Event}
    (h : e ∈ history i tr) : e ∈ history i (tr ++ [(s, act)]) := by
  unfold history
  rw [history_snoc]
  exact List.mem_append_left _ h

/-- A step keeps the registrations as they should be when it does not return from an
`onDisconnect` over a new socket. -/
theorem Kept.step {tr : List (State × Action)} (hrun : Runs .init tr s) (h : Kept tr s)
    {act : Action} (hstep : s.step act = some t) (hgood : NotReplaced tr (s, act)) :
    Kept (tr ++ [(s, act)]) t := by
  have hok := Ok.init.run hrun
  intro a i hreg hserial hcalled
  rw [registered_snoc, List.mem_append, Option.mem_toList] at hreg
  rcases hreg with hbefore | hnow
  · have hold := serial_of_step hstep hserial (lt_born_of_registered hrun hbefore)
    have hnot := fun hin => hcalled (mem_history_snoc hin)
    have hat : s.RegisteredAt a i := ⟨hold, h a i hbefore hold hnot⟩
    refine mem_clients_of_step hok hstep hat hserial ?_
    rintro rfl n hcontrol
    exact hnot (hgood n a i rfl hcontrol hat)
  · obtain ⟨a', hserial', hin⟩ := registeredAt_of_registers hstep hnow
    rw [Arena.serial_injective hserial hserial']
    exact hin

/-- An `onDisconnect` that returns over a new socket takes its registration away. -/
theorem not_kept_of_replaced {tr : List (State × Action)} (hrun : Runs .init tr s)
    {act : Action} (hstep : s.step act = some t) (hbad : ¬ NotReplaced tr (s, act)) :
    ¬ Kept (tr ++ [(s, act)]) t := by
  unfold NotReplaced at hbad
  push Not at hbad
  obtain ⟨n, cur, i, hact, hcontrol, hat, hnot⟩ := hbad
  obtain rfl : act = .ret := hact
  obtain ⟨m, loop, cur', w, hcontrol', hw, rfl, rfl⟩ := ret_cases hstep
  obtain ⟨rfl, rfl, rfl⟩ := Control.calling.inj (hcontrol.symm.trans hcontrol')
  intro hkept
  have hin := hkept cur i ?_ hat.1 ?_
  · rw [clients_some rfl] at hin
    exact absurd rfl (Finset.mem_erase.mp hin).1
  · rw [registered_snoc]
    exact List.mem_append_left _ (registered_of_registeredAt hrun hat)
  · unfold history
    rw [history_snoc]
    simpa [eventAbout, event, calls] using hnot

end State

open State

/-- **Exactly when registered sockets stay registered.**  In every run of the two threads
a socket that was registered successfully, is alive and has had no `onDisconnect` is in
`clients` at every moment, so also whenever `onCall` returns, if and only if no
`onDisconnect` of the run returns while a socket that has not had `onDisconnect` itself is
registered at the address it was called through. -/
theorem registered_stays_iff {tr : List (State × Action)} {s : State}
    (hrun : Runs .init tr s) :
    (∀ pre x, pre <+: tr → Runs .init pre x → Kept pre x) ↔
      ∀ pre p, pre ++ [p] <+: tr → NotReplaced pre p := by
  apply hrun.prefixes_iff_steps (I := Kept)
  · intro pre x act t hpre hkept hstep hgood
    exact hkept.step hpre hstep hgood
  · intro pre x act t hpre _ hstep hbad
    exact not_kept_of_replaced hpre hstep hbad
  · exact fun _ _ hkept => hkept
  · intro a i hreg
    simp [registered] at hreg

theorem hangUp_pos : 0 < [(⟨EPOLLHUP, 1⟩ : EpollEvent)].length := by decide

theorem hangUp_le : [(⟨EPOLLHUP, 1⟩ : EpollEvent)].length ≤ 1024 := by decide

/-- Two sockets; the one at address 1 hangs up, is destroyed in its `onDisconnect`, and a
new one is constructed at address 1 before that returns; then `onCall` goes on to its
end. -/
def reconnect : List Action :=
  [.construct 1 (some true), .construct 2 (some true),
    .collect ⟨[⟨EPOLLHUP, 1⟩], hangUp_pos, hangUp_le⟩, .dispatch, .turn, .destroy 1,
    .construct 1 (some true), .ret, .turn, .turn, .turn]

theorem registered_stays_iff_example : ∃ tr s, Runs .init tr s ∧ actions tr = reconnect ∧
    ((∀ pre x, pre <+: tr → Runs .init pre x → Kept pre x) ↔
      ∀ pre p, pre ++ [p] <+: tr → NotReplaced pre p) := by
  have hexec : (exec State.step .init reconnect).isSome = true := by decide
  obtain ⟨s, hs⟩ := Option.isSome_iff_exists.mp hexec
  obtain ⟨tr, hrun, hacts⟩ := exec_run _ _ _ _ hs
  exact ⟨tr, s, hrun, hacts, registered_stays_iff hrun⟩

/-- **A reconnected socket is not registered.**  The socket constructed third was
registered successfully, lives at address 1 and has had no `onDisconnect`, and it is not in
`clients` when `onCall` has returned.  The socket at address 2 lives all the time. -/
theorem reconnected_not_registered : ∃ s,
    Runs .init (trace State.step .init reconnect) s ∧
    s.control = .idle ∧ s.sockets.serial 2 = some 1 ∧
    2 ∈ registered (trace State.step .init reconnect) ∧ s.sockets.serial 1 = some 2 ∧
    .called .onDisconnect ∉ history 2 (trace State.step .init reconnect) ∧
    1 ∉ s.clients ∧ ¬ Kept (trace State.step .init reconnect) s := by
  let s := (exec State.step .init reconnect).get (by decide)
  have hs : exec State.step .init reconnect = some s := (Option.some_get _).symm
  have hserial : s.sockets.serial 1 = some 2 := by decide
  have hreg : 2 ∈ registered (trace State.step .init reconnect) := by decide
  have hcalled : .called .onDisconnect ∉ history 2 (trace State.step .init reconnect) := by
    decide
  have hout : 1 ∉ s.clients := by decide
  exact ⟨s, (exec_trace _ _ _ _ hs).1, by decide, by decide, hreg, hserial, hcalled, hout,
    fun hkept => hout (hkept 1 2 hreg hserial hcalled)⟩

end Epoll

end Craplib
