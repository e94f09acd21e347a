import Craplib.Lib.Histories
import Craplib.Socket.EpollDispatch
import Craplib.Socket.SelectSteps

/-!
# What a dispatch of the select worker owes to whom

`handleChanges` decides on its first pass over `clients` who is to be called and for what, and
then makes the calls from the deques, while the callbacks construct and destroy sockets.
`dispatch_exact` says that the two agree: a socket that was registered when `handleChanges`
began gets the calls for the bits of its descriptor that are set, in the order of the loops and
each once, until it is destroyed; and nobody else gets any.

There is no test in `handleChanges` before a call.  What stands for it is `deregisterSocket`,
which takes a socket that is destroyed out of all deques, so that an address in a deque is
always that of the socket that was put there (`Progress.same`).  The equation that carries the
result is `Progress.alive`: what has been called and what is still owed is what was due.
-/

namespace Craplib

namespace Select

open Machine
open Epoll (SocketPtr Callback Control Event)

/-- The loops of `handleChanges` that make calls, in their order. -/
def loops : List Callback := [.onCanRead, .onCanWrite, .onDisconnect]

namespace SocketWorker

/-- The calls that the deques still hold for a socket. -/
def owed (w : SocketWorker) (a : SocketPtr) : List Callback :=
  loops.filter (a ∈ w.deque ·)

variable {w w' : SocketWorker} {loop : Callback} {a cur : SocketPtr}

theorem owed_congr (h : ∀ loop, a ∈ w'.deque loop ↔ a ∈ w.deque loop) : w'.owed a = w.owed a := by
  unfold owed
  refine List.filter_congr fun loop _ => ?_
  simp only [h]

theorem owed_eq_nil (h : ∀ loop, w.deque loop = []) : w.owed a = [] := by
  simp [owed, h]

/-- Only the socket that is called is owed a call less. -/
theorem owed_popFront {rest : List SocketPtr} (hdeque : w.deque loop = cur :: rest)
    (hbefore : ∀ loop', rank loop' < rank loop → w.deque loop' = [])
    (hnodup : (w.deque loop).Nodup) :
    w.owed a = (if a = cur then [loop] else []) ++ (w.popFront loop).owed a := by
  have hcur : cur ∉ rest := (List.nodup_cons.mp (hdeque ▸ hnodup)).1
  have hhere : a ∈ w.deque loop ↔ a = cur ∨ a ∈ rest := by rw [hdeque, List.mem_cons]
  have hrest : (w.popFront loop).deque loop = rest := by
    rw [deque_popFront, if_pos rfl, hdeque, List.tail_cons]
  have hother : ∀ loop', loop' ≠ loop → (w.popFront loop).deque loop' = w.deque loop' :=
    fun loop' hne => by rw [deque_popFront, if_neg hne]
  cases loop with
  | onCanRead =>
      simp only [owed, loops, List.filter_cons, List.filter_nil, hhere, hrest,
        hother .onCanWrite (by decide), hother .onDisconnect (by decide)]
      by_cases ha : a = cur <;> simp [ha, hcur]
  | onCanWrite =>
      simp only [owed, loops, List.filter_cons, List.filter_nil, hhere, hrest,
        hother .onCanRead (by decide), hother .onDisconnect (by decide),
        hbefore .onCanRead (by decide)]
      by_cases ha : a = cur <;> simp [ha, hcur]
  | onDisconnect =>
      simp only [owed, loops, List.filter_cons, List.filter_nil, hhere, hrest,
        hother .onCanRead (by decide), hother .onCanWrite (by decide),
        hbefore .onCanRead (by decide), hbefore .onCanWrite (by decide)]
      by_cases ha : a = cur <;> simp [ha, hcur]

end SocketWorker

namespace State

variable {s t u : State} {w w' : SocketWorker}

/-! ## Calls and destructions -/

/-- The call that an action makes: the member function, and the pointer it is called
through. -/
def calls (s : State) (act : Action) : Option (Callback × SocketPtr) :=
  match act, (s.step act).map State.control with
  | .turn, some (.calling _ cb cur) => some (cb, cur)
  | _, _ => none

/-- What an action does to which socket. -/
def event (s : State) (act : Action) : Option (ℕ × Event) :=
  match act with
  | .destroy a => (s.sockets.serial a).map (·, .destroyed)
  | _ => (s.calls act).bind fun c => (s.sockets.serial c.2).map (·, .called c.1)

/-- What has happened to the socket `i` in a trace. -/
abbrev history (i : ℕ) (tr : List (State × Action)) : List Event :=
  Machine.history State.event i tr

/-- The calls that a dispatch begun now owes to the socket at `a`. -/
def due (s : State) (a : SocketPtr) : List Callback :=
  match s.sta with
  | some w =>
      if a ∈ w.clients then loops.filter (SocketWorker.isSet w.copies s.getSock · a) else []
  | none => []

/-- A turn that calls somebody calls the socket at the front of the deque. -/
theorem event_turn_call {n : ℕ} {loop : Callback} {cur : SocketPtr}
    (hstep : s.step .turn = some t) (hcontrol : t.control = .calling n loop cur) :
    s.event .turn = (s.sockets.serial cur).map (·, .called loop) := by
  unfold event calls
  rw [hstep, Option.map_some, hcontrol]
  rfl

/-- A turn that calls nobody. -/
theorem event_turn_quiet (hstep : s.step .turn = some t)
    (hcontrol : ∀ n loop cur, t.control ≠ .calling n loop cur) : s.event .turn = none := by
  unfold event calls
  rw [hstep, Option.map_some]
  cases ht : t.control with
  | calling n loop cur => exact absurd ht (hcontrol n loop cur)
  | idle => rfl
  | draining n loop => rfl

/-! ## How far a dispatch has come -/

/-- **How far a dispatch has come.**  Begun in `s`, in `handleChanges` of the worker `n`, it has
come to `t` by the steps `tr`. -/
structure Progress (s : State) (n : ℕ) (tr : List (State × Action)) (t : State) : Prop where
  born : s.sockets.born ≤ t.sockets.born
  old : ∀ a i, i < s.sockets.born → t.sockets.serial a = some i → s.sockets.serial a = some i
  /-- No other `handleChanges` runs. -/
  control : ∀ m loop, t.control.loop? = some (m, loop) → m = n
  /-- What is in a deque is the socket that was put there. -/
  same : ∀ w loop a, t.sta = some w → a ∈ w.deque loop →
    ∃ i, s.sockets.serial a = some i ∧ t.sockets.serial a = some i
  /-- What has been called and what is still owed is what was due. -/
  alive : ∀ a i, s.sockets.serial a = some i → t.sockets.serial a = some i →
    ∃ w made, t.sta = some w ∧ w.serial = n ∧ State.history i tr = made.map .called ∧
      made ++ w.owed a = s.due a
  gone : ∀ a i, s.sockets.serial a = some i → t.sockets.serial a ≠ some i →
    ∃ made, State.history i tr = made.map .called ++ [.destroyed] ∧ made <+: s.due a
  others : ∀ i, (∀ a, s.sockets.serial a ≠ some i) → ∀ cb, .called cb ∉ State.history i tr

namespace Progress

variable {n : ℕ} {tr : List (State × Action)} {act : Action}

/-- The history of a socket that a step is not about. -/
theorem history_quiet {i : ℕ} (hevent : ∀ e, t.event act ≠ some (i, e)) :
    State.history i (tr ++ [(t, act)]) = State.history i tr := by
  rw [State.history, history_snoc]
  cases habout : eventAbout State.event i t act with
  | none => exact List.append_nil _
  | some e => exact absurd (eventAbout_eq_some.mp habout) (hevent e)

/-- …and of the one it is about. -/
theorem history_event {i : ℕ} {e : Event} (hevent : t.event act = some (i, e)) :
    State.history i (tr ++ [(t, act)]) = State.history i tr ++ [e] := by
  rw [State.history, history_snoc, eventAbout_eq_some.mpr hevent]
  rfl

/-- No socket is at two addresses, not even at two times. -/
theorem unmoved {a b : SocketPtr} {i : ℕ} (h : s.Progress n tr t)
    (hbegan : s.sockets.serial a = some i) (hnow : t.sockets.serial b = some i) : a = b :=
  Arena.serial_injective hbegan (h.old b i (Arena.serial_lt_born hbegan) hnow)

/-- A step that calls and destroys nobody, and leaves the deques as they are. -/
theorem keep (h : s.Progress n tr t) (hevent : t.event act = none)
    (hborn : t.sockets.born ≤ u.sockets.born)
    (hsockets : ∀ a i, i < t.sockets.born →
      (u.sockets.serial a = some i ↔ t.sockets.serial a = some i))
    (hcontrol : ∀ m loop, u.control.loop? = some (m, loop) → m = n) (hw : t.sta = some w)
    (hw' : u.sta = some w') (hserial : w'.serial = w.serial)
    (hdeque : ∀ loop, w'.deque loop = w.deque loop) : s.Progress n (tr ++ [(t, act)]) u := by
  have hquiet : ∀ i, State.history i (tr ++ [(t, act)]) = State.history i tr :=
    fun i => history_quiet fun e he => by
      rw [hevent] at he
      cases he
  have hsame : ∀ a i, i < s.sockets.born →
      (u.sockets.serial a = some i ↔ t.sockets.serial a = some i) :=
    fun a i hi => hsockets a i (Nat.lt_of_lt_of_le hi h.born)
  refine ⟨h.born.trans hborn, fun a i hi hnow => h.old a i hi ((hsame a i hi).mp hnow), hcontrol,
    fun w₁ loop a hw₁ ha => ?_, fun a i hbegan hnow => ?_, fun a i hbegan hgone => ?_,
    fun i hother => ?_⟩
  · obtain rfl : w' = w₁ := Option.some.inj (hw'.symm.trans hw₁)
    obtain ⟨i, hbegan, hnow⟩ := h.same w loop a hw (hdeque loop ▸ ha)
    exact ⟨i, hbegan, (hsame a i (Arena.serial_lt_born hbegan)).mpr hnow⟩
  · have hi := Arena.serial_lt_born hbegan
    obtain ⟨w₁, made, hw₁, hn, hhistory, hdue⟩ := h.alive a i hbegan ((hsame a i hi).mp hnow)
    obtain rfl : w = w₁ := Option.some.inj (hw.symm.trans hw₁)
    refine ⟨w', made, hw', hserial.trans hn, (hquiet i).trans hhistory, ?_⟩
    have howed : w'.owed a = w.owed a := SocketWorker.owed_congr fun loop => by rw [hdeque]
    rw [howed]
    exact hdue
  · have hi := Arena.serial_lt_born hbegan
    rw [hquiet]
    exact h.gone a i hbegan fun hnow => hgone ((hsame a i hi).mpr hnow)
  · rw [hquiet]
    exact h.others i hother

/-- A step where no socket lives. -/
theorem deserted (h : s.Progress n tr t) (hevent : t.event act = none)
    (hnone : ∀ a, t.sockets.serial a = none)
    (hborn : t.sockets.born ≤ u.sockets.born)
    (hsockets : ∀ a i, i < t.sockets.born →
      (u.sockets.serial a = some i ↔ t.sockets.serial a = some i))
    (hcontrol : ∀ m loop, u.control.loop? = some (m, loop) → m = n)
    (hdeque : ∀ w, u.sta = some w → ∀ loop, w.deque loop = []) :
    s.Progress n (tr ++ [(t, act)]) u := by
  have hquiet : ∀ i, State.history i (tr ++ [(t, act)]) = State.history i tr :=
    fun i => history_quiet fun e he => by
      rw [hevent] at he
      cases he
  have hdead : ∀ a i, i < s.sockets.born → u.sockets.serial a ≠ some i := by
    intro a i hi hnow
    rw [hsockets a i (Nat.lt_of_lt_of_le hi h.born), hnone] at hnow
    cases hnow
  refine ⟨h.born.trans hborn, fun a i hi hnow => absurd hnow (hdead a i hi), hcontrol,
    fun w loop a hw ha => ?_, fun a i hbegan hnow => ?_, fun a i hbegan _ => ?_,
    fun i hother => ?_⟩
  · rw [hdeque w hw loop] at ha
    cases ha
  · exact absurd hnow (hdead a i (Arena.serial_lt_born hbegan))
  · rw [hquiet]
    exact h.gone a i hbegan (by simp [hnone])
  · rw [hquiet]
    exact h.others i hother

/-- Where there is no socket, there is none to be found. -/
theorem serial_eq_none (hok : t.Ok) (hzero : t.refCounter = 0) (a : SocketPtr) :
    t.sockets.serial a = none := by
  by_contra hsome
  obtain ⟨i, hi⟩ := Option.ne_none_iff_exists'.mp hsome
  have hpos := Arena.size_pos hi
  have hcount := hok.count
  omega

/-- …and nothing in a deque. -/
theorem deque_eq_nil (h : s.Progress n tr t) (hnone : ∀ a, t.sockets.serial a = none)
    (hw : t.sta = some w) (loop : Callback) : w.deque loop = [] := by
  rw [List.eq_nil_iff_forall_not_mem]
  intro a ha
  obtain ⟨i, -, hnow⟩ := h.same w loop a hw ha
  rw [hnone] at hnow
  cases hnow

/-- `handleChanges` has queued what it is going to do. -/
theorem start (hok : s.Ok) (h : s.dispatch = some t) :
    ∃ w, s.sta = some w ∧ s.Progress w.serial [] t := by
  obtain ⟨w, hw, hidle, -, hcalled, ⟨w', -, hqueue, rfl⟩ | ⟨hmessage, -⟩⟩ := dispatch_cases h
  · have hlive := (hok.worker w hw).live
    rw [SocketWorker.queueChanges_eq w (hok.worker w hw).live_ne_none] at hqueue
    obtain rfl := Option.some.inj hqueue
    have hempty := hok.emptied w hw (by rw [hidle]; simp [Epoll.Control.loop?])
    have hread : w.read = [] := hempty .onCanRead
    have hwrite : w.write = [] := hempty .onCanWrite
    have herr : w.err = [] := hempty .onDisconnect
    refine ⟨w, hw, Nat.le_refl _, fun a i _ hnow => hnow, fun m loop hloop => ?_,
      fun w₁ loop a hw₁ ha => ?_, fun a i _ _ => ⟨_, [], rfl, rfl, rfl, ?_⟩,
      fun a i hbegan hgone => absurd hbegan hgone, fun i _ cb hin => by simp at hin⟩
    · cases hloop
      rfl
    · obtain rfl := Option.some.inj hw₁
      have hclient : a ∈ w.clients := by
        cases loop
        all_goals
          simp only [SocketWorker.deque, hread, hwrite, herr, List.nil_append] at ha
          exact List.mem_of_mem_filter ha
      obtain ⟨sock, hsock, -⟩ := hlive a hclient
      obtain ⟨⟨i, sock'⟩, hobject, -⟩ := Option.map_eq_some_iff.mp hsock
      have hserial := Arena.serial_eq_some.mpr ⟨sock', hobject⟩
      exact ⟨i, hserial, hserial⟩
    · rw [List.nil_append, due, hw, SocketWorker.owed]
      dsimp only
      split_ifs with hclient
      · refine List.filter_congr fun loop _ => ?_
        cases loop
        all_goals simp [SocketWorker.deque, hread, hwrite, herr, hclient]
      · rw [List.filter_eq_nil_iff]
        intro loop _
        cases loop
        all_goals simp [SocketWorker.deque, hread, hwrite, herr, hclient]
  · rw [(hok.worker w hw).message hcalled] at hmessage
    cases hmessage

/-- The front of a deque is called. -/
theorem call {loop : Callback} {cur : SocketPtr} {rest : List SocketPtr} (hok : t.Ok)
    (h : s.Progress n tr t) (hcontrol : t.control = .draining n loop) (hw : t.sta = some w)
    (hserial : w.serial = n) (hdeque : w.deque loop = cur :: rest)
    (hstep : t.step .turn =
      some { t with sta := some (w.popFront loop), control := .calling n loop cur }) :
    s.Progress n (tr ++ [(t, .turn)])
      { t with sta := some (w.popFront loop), control := .calling n loop cur } := by
  have hworker := hok.worker w hw
  obtain ⟨j, hjbegan, hjnow⟩ := h.same w loop cur hw (by rw [hdeque]; exact List.mem_cons_self)
  have hevent : t.event .turn = some (j, .called loop) := by
    rw [event_turn_call hstep rfl, hjnow]
    rfl
  have howed := fun a => SocketWorker.owed_popFront (a := a) hdeque
    (hok.drained w loop hw (by rw [hcontrol, hserial, Control.loop?]))
    (hworker.nodup.sublist (hworker.queued loop))
  have hquiet : ∀ i, i ≠ j → State.history i (tr ++ [(t, .turn)]) = State.history i tr :=
    fun i hne => history_quiet fun e he => by
      rw [hevent, Option.some.injEq, Prod.mk.injEq] at he
      exact hne he.1.symm
  refine ⟨h.born, h.old, fun m l hloop => ?_, fun w₁ l a hw₁ ha => ?_, fun a i hbegan hnow => ?_,
    fun a i hbegan hgone => ?_, fun i hother => ?_⟩
  · cases hloop
    rfl
  · obtain rfl := Option.some.inj hw₁
    refine h.same w l a hw ?_
    rw [SocketWorker.deque_popFront] at ha
    split_ifs at ha with hl
    · exact hl ▸ List.mem_of_mem_tail ha
    · exact ha
  · obtain ⟨w₁, made, hw₁, -, hhistory, hdue⟩ := h.alive a i hbegan hnow
    obtain rfl : w = w₁ := Option.some.inj (hw.symm.trans hw₁)
    rw [howed] at hdue
    by_cases hcur : a = cur
    · -- the call is the first of those that are owed
      obtain rfl : i = j := Option.some.inj (hbegan.symm.trans (hcur ▸ hjbegan))
      refine ⟨_, made ++ [loop], rfl, (SocketWorker.serial_popFront w loop).trans hserial, ?_, ?_⟩
      · rw [history_event hevent, hhistory, List.map_append, List.map_singleton]
      · rw [if_pos hcur] at hdue
        rw [List.append_assoc]
        exact hdue
    · have hne : i ≠ j := by
        rintro rfl
        exact hcur (Arena.serial_injective hbegan hjbegan)
      rw [if_neg hcur, List.nil_append] at hdue
      exact ⟨_, made, rfl, (SocketWorker.serial_popFront w loop).trans hserial,
        (hquiet i hne).trans hhistory, hdue⟩
  · have hne : i ≠ j := by
      rintro rfl
      obtain rfl := Arena.serial_injective hbegan hjbegan
      exact hgone hjnow
    rw [hquiet i hne]
    exact h.gone a i hbegan hgone
  · rw [hquiet i fun hj => hother cur (hj ▸ hjbegan)]
    exact h.others i hother

theorem turn (hok : t.Ok) (h : s.Progress n tr t) (hstep : t.turn = some u) :
    s.Progress n (tr ++ [(t, .turn)]) u := by
  obtain ⟨m, loop, w, hcontrol, hw, hserial, hcase⟩ := turn_cases hstep
  obtain rfl := h.control m loop (by rw [hcontrol, Control.loop?])
  rcases hcase with ⟨cur, rest, hdeque, rfl⟩ | ⟨loop', -, -, rfl⟩ | ⟨-, -, rfl⟩
  · exact h.call hok hcontrol hw hserial hdeque hstep
  · refine h.keep (event_turn_quiet hstep fun _ _ _ => Control.noConfusion) (Nat.le_refl _)
      (fun _ _ _ => Iff.rfl) (fun k l hloop => ?_) hw hw rfl fun _ => rfl
    cases hloop
    rfl
  · exact h.keep (event_turn_quiet hstep fun _ _ _ => Control.noConfusion) (Nat.le_refl _)
      (fun _ _ _ => Iff.rfl) (fun k l hloop => by cases hloop) hw rfl rfl
      fun l => (SocketWorker.deque_signal _ l).trans (by cases l <;> rfl)

theorem construct {a : SocketPtr} {sock : ℤ} {registers : Bool} (hok : t.Ok)
    (h : s.Progress n tr t) (hstep : t.construct a sock registers = some u) :
    s.Progress n (tr ++ [(t, .construct a sock registers)]) u := by
  obtain ⟨hsockets, hcontrol, -, w, hwhere, hw'⟩ := construct_frame hok hstep
  have hborn : t.sockets.born ≤ u.sockets.born := by
    rw [Arena.born_of_construct hsockets]
    exact Nat.le_succ _
  have hold : ∀ c i, i < t.sockets.born →
      (u.sockets.serial c = some i ↔ t.sockets.serial c = some i) := by
    intro c i hi
    rw [Arena.serial_of_construct hsockets]
    split_ifs with hc
    · rw [hc, Arena.serial_eq_none.mpr (Arena.free_of_construct hsockets), Option.some.injEq]
      exact ⟨fun hnew => absurd hi (hnew ▸ Nat.lt_irrefl _), fun hnone => by cases hnone⟩
    · exact Iff.rfl
  generalize hregister : (if registers then w.registerSocket a sock else w) = w' at hw'
  have hsame : w'.serial = w.serial ∧ ∀ loop, w'.deque loop = w.deque loop := by
    rw [← hregister]
    cases registers
    · exact ⟨rfl, fun _ => rfl⟩
    · exact ⟨SocketWorker.serial_registerSocket w a sock,
        fun loop => SocketWorker.deque_registerSocket w loop a sock⟩
  rcases hwhere with ⟨hzero, rfl⟩ | hw
  · refine h.deserted rfl (serial_eq_none hok hzero) hborn hold (hcontrol ▸ h.control) ?_
    intro w₁ hw₁ loop
    obtain rfl : w' = w₁ := Option.some.inj (hw'.symm.trans hw₁)
    rw [hsame.2]
    cases loop <;> rfl
  · exact h.keep rfl hborn hold (hcontrol ▸ h.control) hw hw' hsame.1 hsame.2

theorem destroy {a : SocketPtr} (h : s.Progress n tr t) (hstep : t.destroy a = some u) :
    s.Progress n (tr ++ [(t, .destroy a)]) u := by
  obtain ⟨j, w, -, hj, hw, rfl⟩ := destroy_cases hstep
  have hevent : t.event (.destroy a) = some (j, .destroyed) :=
    congrArg (Option.map (·, Event.destroyed)) hj
  have hquiet : ∀ i, i ≠ j → State.history i (tr ++ [(t, .destroy a)]) = State.history i tr :=
    fun i hne => history_quiet fun e he => by
      rw [hevent, Option.some.injEq, Prod.mk.injEq] at he
      exact hne he.1.symm
  have hstays : ∀ b i, (t.sockets.destroy a).serial b = some i ↔
      b ≠ a ∧ t.sockets.serial b = some i := by
    intro b i
    rw [Arena.serial_destroy]
    split_ifs with hb <;> simp [hb]
  refine ⟨h.born, fun b i hi hnow => h.old b i hi ((hstays b i).mp hnow).2, h.control,
    fun w₁ loop b hw₁ hb => ?_, fun b i hbegan hnow => ?_, fun b i hbegan hgone => ?_,
    fun i hother cb hin => ?_⟩
  · obtain rfl := Option.some.inj hw₁
    rw [SocketWorker.deque_deregisterSocket, List.mem_filter] at hb
    obtain ⟨i, hbegan, hnow⟩ := h.same w loop b hw hb.1
    exact ⟨i, hbegan, (hstays b i).mpr ⟨by simpa using hb.2, hnow⟩⟩
  · obtain ⟨hb, hbefore⟩ := (hstays b i).mp hnow
    obtain ⟨w₁, made, hw₁, hn, hhistory, hdue⟩ := h.alive b i hbegan hbefore
    obtain rfl : w = w₁ := Option.some.inj (hw.symm.trans hw₁)
    have hne : i ≠ j := by
      rintro rfl
      exact hb (Arena.serial_injective hbefore hj)
    refine ⟨_, made, rfl, hn, (hquiet i hne).trans hhistory, ?_⟩
    have howed : (w.deregisterSocket a).owed b = w.owed b :=
      SocketWorker.owed_congr fun loop => by
        rw [SocketWorker.deque_deregisterSocket, List.mem_filter]
        simp [hb]
    rw [howed]
    exact hdue
  · by_cases hbefore : t.sockets.serial b = some i
    · -- it is the one that is destroyed
      obtain rfl : b = a := by
        by_contra hb
        exact hgone ((hstays b i).mpr ⟨hb, hbefore⟩)
      obtain rfl : i = j := Option.some.inj (hbefore.symm.trans hj)
      obtain ⟨w₁, made, -, -, hhistory, hdue⟩ := h.alive b i hbegan hbefore
      refine ⟨made, ?_, hdue ▸ List.prefix_append made _⟩
      rw [history_event hevent, hhistory]
    · have hne : i ≠ j := by
        rintro rfl
        exact hbefore (h.unmoved hbegan hj ▸ hj)
      rw [hquiet i hne]
      exact h.gone b i hbegan hbefore
  · rw [State.history, history_snoc, List.mem_append, Option.mem_toList, eventAbout_eq_some,
      hevent] at hin
    rcases hin with hin | hin
    · exact h.others i hother cb hin
    · cases hin

/-- Every step but the next dispatch. -/
theorem step (hok : t.Ok) (h : s.Progress n tr t) (hstep : t.step act = some u)
    (hone : act ≠ .dispatch) : s.Progress n (tr ++ [(t, act)]) u := by
  cases act with
  | thread act =>
      obtain ⟨w, w', hw, hthread, rfl⟩ := thread_cases hstep
      obtain ⟨hserial, -, hdeque, -⟩ := SocketWorker.threadStep_frame hthread
      exact h.keep rfl (Nat.le_refl _) (fun _ _ _ => Iff.rfl) h.control hw rfl hserial hdeque
  | dispatch => exact absurd rfl hone
  | turn => exact h.turn hok hstep
  | ret =>
      obtain ⟨m, loop, cur, w, hcontrol, -, hw, -, rfl⟩ := ret_cases hstep
      refine h.keep rfl (Nat.le_refl _) (fun _ _ _ => Iff.rfl) (fun k l hloop => ?_) hw hw rfl
        fun _ => rfl
      cases hloop
      exact h.control _ _ (by rw [hcontrol, Control.loop?])
  | construct a sock registers => exact h.construct hok hstep
  | destroy a => exact h.destroy hstep
  | requestTermination =>
      obtain ⟨w, hw, hteardown, -, rfl⟩ := requestTermination_cases hstep
      have hnone := serial_eq_none hok
        (hok.tearing (by rw [hteardown]; exact Option.some_ne_none _))
      refine h.deserted rfl hnone (Nat.le_refl _) (fun _ _ _ => Iff.rfl) h.control ?_
      rintro _ ⟨rfl⟩ loop
      rw [SocketWorker.deque_signal]
      exact (SocketWorker.deque_congr rfl rfl rfl loop).trans (h.deque_eq_nil hnone hw loop)
  | join =>
      obtain ⟨w, hw, hteardown, -, rfl⟩ := join_cases hstep
      have hnone := serial_eq_none hok
        (hok.tearing (by rw [hteardown]; exact Option.some_ne_none _))
      exact h.deserted rfl hnone (Nat.le_refl _) (fun _ _ _ => Iff.rfl) h.control
        fun w hw => by cases hw

theorem run {s' : State} {tr₀ : List (State × Action)} (h : s.Progress n tr₀ s') (hok : s'.Ok)
    (hrun : Runs s' tr t) (hone : .dispatch ∉ actions tr) : s.Progress n (tr₀ ++ tr) t := by
  induction hrun with
  | nil => rwa [List.append_nil]
  | @snoc tr t u act hrun hstep ih =>
      rw [actions_append, List.mem_append, not_or] at hone
      rw [← List.append_assoc]
      refine (ih hone.1).step (hok.run hrun) hstep ?_
      rintro rfl
      exact hone.2 (by simp [actions])

end Progress

/-- A call is made by a turn of a loop of `handleChanges`, through the front of its deque. -/
theorem calls_cases {act : Action} {cb : Callback} {cur : SocketPtr}
    (h : s.calls act = some (cb, cur)) :
    ∃ n w rest, s.control = .draining n cb ∧ s.sta = some w ∧ w.deque cb = cur :: rest := by
  unfold calls at h
  split at h
  · next hnext =>
      cases h
      obtain ⟨t, hstep, hcalling⟩ := Option.map_eq_some_iff.mp hnext
      obtain ⟨n, loop, w, hcontrol, hw, -, hcase⟩ := turn_cases hstep
      rcases hcase with ⟨cur', rest, hdeque, rfl⟩ | ⟨loop', -, -, rfl⟩ | ⟨-, -, rfl⟩
      · cases hcalling
        exact ⟨_, w, rest, hcontrol, hw, hdeque⟩
      · cases hcalling
      · cases hcalling
  · cases h

/-- An event that is a call is one on a living socket. -/
theorem event_called {act : Action} {i : ℕ} {cb : Callback}
    (h : s.event act = some (i, .called cb)) :
    ∃ cur, s.calls act = some (cb, cur) ∧ s.sockets.serial cur = some i := by
  cases act with
  | destroy a =>
      obtain ⟨j, -, hj⟩ := Option.map_eq_some_iff.mp h
      cases hj
  | _ =>
      simp only [event] at h
      obtain ⟨c, hc, h⟩ := Option.bind_eq_some_iff.mp h
      obtain ⟨j, hj, hji⟩ := Option.map_eq_some_iff.mp h
      cases hji
      exact ⟨c.2, hc, hj⟩

end State

/-- **A dispatch makes the calls that are due and no others.**  Whatever the callbacks construct
and destroy, at whatever addresses: every call goes to a socket that is registered and alive
when it is made; a socket that lived when the dispatch began has got a prefix of the calls due
to it, and after them its destructor if it is gone, and has got them all when `onCall` has
returned and it is still there; and no other socket has been called. -/
theorem dispatch_exact {tr₀ tr : List (State × Action)} {s s' t : State}
    (hreach : Runs .init tr₀ s) (hdispatch : s.step .dispatch = some s') (hrun : Runs s' tr t)
    (hone : .dispatch ∉ actions tr) :
    (∀ p ∈ tr, ∀ cb cur, p.1.calls p.2 = some (cb, cur) →
      ∃ w i, p.1.sta = some w ∧ cur ∈ w.clients ∧ p.1.sockets.serial cur = some i) ∧
    (∀ a i, s.sockets.serial a = some i → ∃ made, made <+: s.due a ∧
      State.history i tr = made.map .called ++
        (if t.sockets.serial a = some i then [] else [.destroyed]) ∧
      (t.control = .idle → t.sockets.serial a = some i → made = s.due a)) ∧
    ∀ i, (∀ a, s.sockets.serial a ≠ some i) → ∀ cb, .called cb ∉ State.history i tr := by
  have hok := State.Ok.init.run hreach
  have hok' := hok.dispatch hdispatch
  obtain ⟨w₀, -, hstart⟩ := State.Progress.start hok hdispatch
  have hprogress : s.Progress w₀.serial tr t := hstart.run hok' hrun hone
  refine ⟨fun p hp cb cur hcall => ?_, fun a i hbegan => ?_, hprogress.others⟩
  · obtain ⟨pre, post, u, -, hpre, hstep, -⟩ := hrun.of_mem hp
    obtain ⟨m, w, rest, -, hw, hdeque⟩ := State.calls_cases hcall
    have hworker := (hok'.run hpre).worker w hw
    have hclient : cur ∈ w.clients :=
      (hworker.queued cb).subset (by rw [hdeque]; exact List.mem_cons_self)
    obtain ⟨sock, hsock, -⟩ := hworker.live cur hclient
    obtain ⟨⟨i, sock'⟩, hobject, -⟩ := Option.map_eq_some_iff.mp hsock
    exact ⟨w, i, hw, hclient, Arena.serial_eq_some.mpr ⟨sock', hobject⟩⟩
  · by_cases hnow : t.sockets.serial a = some i
    · obtain ⟨w, made, hw, -, hhistory, hdue⟩ := hprogress.alive a i hbegan hnow
      refine ⟨made, hdue ▸ List.prefix_append made _, ?_, fun hidle _ => ?_⟩
      · rw [if_pos hnow, List.append_nil, hhistory]
      · have hempty := (hok'.run hrun).emptied w hw
          (by rw [hidle]; simp [Epoll.Control.loop?])
        rw [SocketWorker.owed_eq_nil hempty, List.append_nil] at hdue
        exact hdue
    · obtain ⟨made, hhistory, hprefix⟩ := hprogress.gone a i hbegan hnow
      exact ⟨made, hprefix, by rw [if_neg hnow, hhistory], fun _ hstill => absurd hstill hnow⟩

/-- Two sockets are due two calls each.  The first destroys the second in its `onCanRead`, and
constructs a third at the same address and with the same descriptor, which is not called. -/
theorem dispatch_exact_example : ∃ tr₀ tr s s' t, Runs .init tr₀ s ∧
    s.step .dispatch = some s' ∧ Runs s' tr t ∧
    actions tr = [.turn, .destroy 2, .construct 2 4 true, .ret, .turn, .turn, .ret, .turn, .turn] ∧
    t.control = .idle ∧
    (∀ p ∈ tr, ∀ cb cur, p.1.calls p.2 = some (cb, cur) →
      ∃ w i, p.1.sta = some w ∧ cur ∈ w.clients ∧ p.1.sockets.serial cur = some i) ∧
    (∀ a i, s.sockets.serial a = some i → ∃ made, made <+: s.due a ∧
      State.history i tr = made.map .called ++
        (if t.sockets.serial a = some i then [] else [.destroyed]) ∧
      (t.control = .idle → t.sockets.serial a = some i → made = s.due a)) ∧
    ∀ i, (∀ a, s.sockets.serial a ≠ some i) → ∀ cb, .called cb ∉ State.history i tr := by
  have hexec : ((exec State.step .init [.construct 1 3 true, .construct 2 4 true, .thread .lock,
      .thread (.select ⟨{3, 4}, {3, 4}, ∅⟩), .thread .enter, .thread .work]).bind fun s =>
        (s.step .dispatch).bind fun s' => (exec State.step s' [.turn, .destroy 2,
          .construct 2 4 true, .ret, .turn, .turn, .ret, .turn, .turn]).map State.control) =
      some .idle := by decide
  obtain ⟨s, hs, hexec⟩ := Option.bind_eq_some_iff.mp hexec
  obtain ⟨s', hs', hexec⟩ := Option.bind_eq_some_iff.mp hexec
  obtain ⟨t, ht, hidle⟩ := Option.map_eq_some_iff.mp hexec
  obtain ⟨tr₀, hreach, -⟩ := exec_run _ _ _ _ hs
  obtain ⟨tr, hrun, hacts⟩ := exec_run _ _ _ _ ht
  exact ⟨tr₀, tr, s, s', t, hreach, hs', hrun, hacts, hidle,
    dispatch_exact hreach hs' hrun (by simp [hacts])⟩

/-! ## The dispatch ends -/

/-- How many loops of `handleChanges` are left, this one included. -/
def loopsLeft : Callback → ℕ
  | .onCanRead => 3
  | .onCanWrite => 2
  | .onDisconnect => 1

/-- How many addresses wait in the deques of a worker. -/
def queued (w : SocketWorker) : ℕ := w.read.length + w.write.length + w.err.length

/-- The steps that the loop thread takes in `handleChanges`. -/
def ofDispatch : Action → Bool
  | .turn => true
  | .ret => true
  | _ => false

namespace State

variable {s t u : State} {w w' : SocketWorker}

/-- A bound on the steps left in `handleChanges`. -/
def stepsLeft (s : State) : ℕ :=
  match s.control with
  | .idle => 0
  | .draining n loop => (s.worker? n).elim 0 fun w => 2 * queued w + loopsLeft loop
  | .calling n loop _ => (s.worker? n).elim 0 fun w => 2 * queued w + loopsLeft loop + 1

theorem queued_congr (h : ∀ loop, w'.deque loop = w.deque loop) : queued w' = queued w := by
  have hread : w'.read = w.read := h .onCanRead
  have hwrite : w'.write = w.write := h .onCanWrite
  have herr : w'.err = w.err := h .onDisconnect
  rw [queued, queued, hread, hwrite, herr]

theorem queued_popFront {loop : Callback} {cur : SocketPtr} {rest : List SocketPtr}
    (hdeque : w.deque loop = cur :: rest) : queued (w.popFront loop) + 1 = queued w := by
  have hlength : (w.deque loop).length = rest.length + 1 := by rw [hdeque, List.length_cons]
  cases loop
  all_goals
    simp only [SocketWorker.deque] at hlength
    simp only [queued, SocketWorker.popFront, List.length_tail]
    omega

theorem queued_deregisterSocket_le (a : SocketPtr) :
    queued (w.deregisterSocket a) ≤ queued w :=
  Nat.add_le_add (Nat.add_le_add (List.length_filter_le _ _) (List.length_filter_le _ _))
    (List.length_filter_le _ _)

/-- A worker that has become another, with no more in its deques. -/
theorem stepsLeft_le (hcontrol : t.control = s.control)
    (hworker : ∀ n w', t.worker? n = some w' → (∃ loop, s.control.loop? = some (n, loop)) →
      ∃ w, s.worker? n = some w ∧ queued w' ≤ queued w) : t.stepsLeft ≤ s.stepsLeft := by
  have hle : ∀ n extra, (∃ loop, s.control.loop? = some (n, loop)) →
      (t.worker? n).elim 0 (fun w => 2 * queued w + extra) ≤
        (s.worker? n).elim 0 fun w => 2 * queued w + extra := by
    intro n extra hloop
    cases ht : t.worker? n with
    | none => exact Nat.zero_le _
    | some w' =>
        obtain ⟨w, hs, hqueued⟩ := hworker n w' ht hloop
        rw [hs, Option.elim_some, Option.elim_some]
        omega
  unfold stepsLeft
  rw [hcontrol]
  cases hat : s.control with
  | idle => exact Nat.le_refl 0
  | draining n loop => exact hle n _ ⟨loop, by rw [hat, Epoll.Control.loop?]⟩
  | calling n loop cur => exact hle n (loopsLeft loop + 1) ⟨loop, by rw [hat, Epoll.Control.loop?]⟩

/-- The same, for a step that has replaced the one worker. -/
theorem stepsLeft_le_of_worker (hcontrol : t.control = s.control) (hw : s.sta = some w)
    (hw' : t.sta = some w') (hserial : w'.serial = w.serial) (hqueued : queued w' ≤ queued w) :
    t.stepsLeft ≤ s.stepsLeft := by
  apply stepsLeft_le hcontrol
  intro n w₁ hw₁ _
  obtain ⟨hsta, hn⟩ := worker?_eq_some.mp hw₁
  obtain rfl : w' = w₁ := Option.some.inj (hw'.symm.trans hsta)
  exact ⟨w, worker?_eq_some.mpr ⟨hw, hserial ▸ hn⟩, hqueued⟩

/-- A turn brings the end nearer. -/
theorem stepsLeft_turn (hstep : s.turn = some t) : t.stepsLeft < s.stepsLeft := by
  obtain ⟨n, loop, w, hcontrol, hw, hserial, hcase⟩ := turn_cases hstep
  have hbefore : s.stepsLeft = 2 * queued w + loopsLeft loop := by
    unfold stepsLeft
    rw [hcontrol]
    dsimp only
    rw [worker?_eq_some.mpr ⟨hw, hserial⟩, Option.elim_some]
  rw [hbefore]
  rcases hcase with ⟨cur, rest, hdeque, rfl⟩ | ⟨loop', -, hnext, rfl⟩ | ⟨-, -, rfl⟩
  · have hqueued := queued_popFront hdeque
    have hafter : worker? { s with sta := some (w.popFront loop),
                                   control := .calling n loop cur } n = some (w.popFront loop) :=
      worker?_eq_some.mpr ⟨rfl, (SocketWorker.serial_popFront w loop).trans hserial⟩
    unfold stepsLeft
    dsimp only
    rw [hafter, Option.elim_some]
    omega
  · have hafter : worker? { s with control := .draining n loop' } n = some w :=
      worker?_eq_some.mpr ⟨hw, hserial⟩
    have hless : loopsLeft loop' < loopsLeft loop := by
      cases loop <;> cases hnext <;> decide
    unfold stepsLeft
    dsimp only
    rw [hafter, Option.elim_some]
    omega
  · have hpos : 0 < loopsLeft loop := by cases loop <;> decide
    exact Nat.lt_of_lt_of_le hpos (Nat.le_add_left _ _)

/-- So does the return of a callback. -/
theorem stepsLeft_ret (hstep : s.ret = some t) : t.stepsLeft < s.stepsLeft := by
  obtain ⟨n, loop, cur, w, hcontrol, -, hw, hserial, rfl⟩ := ret_cases hstep
  have hworker : s.worker? n = some w := worker?_eq_some.mpr ⟨hw, hserial⟩
  have hafter : worker? { s with control := .draining n loop } n = some w := hworker
  unfold stepsLeft
  rw [hcontrol]
  dsimp only
  rw [hafter, hworker]
  exact Nat.lt_succ_self _

/-- And no other step but a dispatch puts it off. -/
theorem stepsLeft_step (hok : s.Ok) {act : Action} (hstep : s.step act = some t)
    (hone : act ≠ .dispatch) : t.stepsLeft + (if ofDispatch act then 1 else 0) ≤ s.stepsLeft := by
  cases act with
  | thread act =>
      obtain ⟨w, w', hw, hthread, rfl⟩ := thread_cases hstep
      obtain ⟨hserial, -, hdeque, -⟩ := SocketWorker.threadStep_frame hthread
      exact stepsLeft_le_of_worker rfl hw rfl hserial (queued_congr hdeque).le
  | dispatch => exact absurd rfl hone
  | turn => exact stepsLeft_turn hstep
  | ret => exact stepsLeft_ret hstep
  | construct a sock registers =>
      obtain ⟨-, hcontrol, -, w, hwhere, hw'⟩ := construct_frame hok hstep
      generalize hregister : (if registers then w.registerSocket a sock else w) = w' at hw'
      have hserial : w'.serial = w.serial := by
        rw [← hregister]
        cases registers
        · rfl
        · exact SocketWorker.serial_registerSocket w a sock
      rcases hwhere with ⟨-, rfl⟩ | hw
      · -- the new worker is not the one that `handleChanges` may be running for
        apply stepsLeft_le hcontrol
        rintro n w₁ hw₁ ⟨loop, hloop⟩
        obtain ⟨hsta, rfl⟩ := worker?_eq_some.mp hw₁
        obtain rfl : w' = w₁ := Option.some.inj (hw'.symm.trans hsta)
        have hlt := hok.loop_lt _ loop hloop
        rw [hserial] at hlt
        exact absurd hlt (Nat.lt_irrefl _)
      · refine stepsLeft_le_of_worker hcontrol hw hw' hserial (queued_congr fun loop => ?_).le
        rw [← hregister]
        cases registers
        · rfl
        · exact SocketWorker.deque_registerSocket w loop a sock
  | destroy a =>
      obtain ⟨i, w, -, -, hw, rfl⟩ := destroy_cases hstep
      exact stepsLeft_le_of_worker rfl hw rfl rfl (queued_deregisterSocket_le a)
  | requestTermination =>
      obtain ⟨w, hw, -, -, rfl⟩ := requestTermination_cases hstep
      exact stepsLeft_le_of_worker rfl hw rfl rfl (Nat.le_refl _)
  | join =>
      obtain ⟨w, -, -, -, rfl⟩ := join_cases hstep
      exact stepsLeft_le rfl fun n w' hw' _ => by
        cases (worker?_eq_some.mp hw').1

/-- Until `handleChanges` has returned it has a next step, unless its worker is being deleted, or
is gone. -/
theorem progress {n : ℕ} {loop : Callback} (hloop : s.control.loop? = some (n, loop))
    (hteardown : s.teardown = none) (hworker : s.worker? n = some w) :
    ∃ act t, ofDispatch act = true ∧ s.step act = some t := by
  cases hcontrol : s.control with
  | idle =>
      rw [hcontrol] at hloop
      cases hloop
  | draining m loop' =>
      rw [hcontrol] at hloop
      cases hloop
      suffices hsome : (s.step .turn).isSome by
        obtain ⟨t, ht⟩ := Option.isSome_iff_exists.mp hsome
        exact ⟨.turn, t, rfl, ht⟩
      change s.turn.isSome = true
      unfold turn
      rw [hcontrol]
      dsimp only
      rw [hworker]
      simp only [Option.bind_eq_bind, Option.bind_some]
      split
      · rfl
      · split <;> rfl
  | calling m loop' cur =>
      rw [hcontrol] at hloop
      cases hloop
      refine ⟨.ret, { s with control := .draining n loop }, rfl, ?_⟩
      change s.ret = _
      unfold ret
      rw [hcontrol, hteardown]
      dsimp only
      rw [hworker]
      rfl

/-- What `handleChanges` may have to do when it has filled the deques. -/
theorem stepsLeft_dispatch (hok : s.Ok) (hw : s.sta = some w) (hstep : s.dispatch = some t) :
    t.stepsLeft ≤ 6 * w.clients.length + 3 := by
  have hok' := hok.dispatch hstep
  obtain ⟨w₁, hw₁, -, -, hcalled, ⟨w', -, hqueue, rfl⟩ | ⟨hmessage, -⟩⟩ := dispatch_cases hstep
  · obtain rfl : w = w₁ := Option.some.inj (hw.symm.trans hw₁)
    rw [SocketWorker.queueChanges_eq w (hok.worker w hw).live_ne_none] at hqueue
    have hclients : w'.clients = w.clients := by rw [← Option.some.inj hqueue]
    have hworker := hok'.worker w' rfl
    have hread : w'.read.length ≤ _ := (hworker.queued .onCanRead).length_le
    have hwrite : w'.write.length ≤ _ := (hworker.queued .onCanWrite).length_le
    have herr : w'.err.length ≤ _ := (hworker.queued .onDisconnect).length_le
    have hthis : worker? { s with sta := some w', control := .draining w'.serial .onCanRead }
        w'.serial = some w' := worker?_eq_some.mpr ⟨rfl, rfl⟩
    rw [hclients] at hread hwrite herr
    unfold stepsLeft
    dsimp only
    rw [hthis, Option.elim_some]
    simp only [queued, loopsLeft]
    omega
  · rw [(hok.worker w₁ hw₁).message hcalled] at hmessage
    cases hmessage

end State

/-- **A dispatch ends.**  `handleChanges` takes at most six steps for each client and three more,
whatever the callbacks do; and until it has returned it has a next one, unless a callback has
destroyed the last socket: then its worker is being deleted, or is gone. -/
theorem dispatch_ends {tr₀ tr : List (State × Action)} {s s' t : State} {w : SocketWorker}
    (hreach : Runs .init tr₀ s) (hw : s.sta = some w) (hdispatch : s.step .dispatch = some s')
    (hrun : Runs s' tr t) (hone : .dispatch ∉ actions tr) :
    tr.countP (ofDispatch ·.2) ≤ 6 * w.clients.length + 3 ∧
      (t.control = .idle ∨ (∃ act u, ofDispatch act = true ∧ t.step act = some u) ∨
        t.teardown ≠ none ∨ t.worker? w.serial = none) := by
  have hok := State.Ok.init.run hreach
  have hok' := hok.dispatch hdispatch
  constructor
  · have hcount : tr.countP (ofDispatch ·.2) + t.stepsLeft ≤ s'.stepsLeft := by
      clear hdispatch
      induction hrun with
      | nil => simp
      | @snoc tr t u act hrun hstep ih =>
          rw [actions_append, List.mem_append, not_or] at hone
          have hbefore := ih hone.1
          have hnow := State.stepsLeft_step (hok'.run hrun) hstep fun hact =>
            hone.2 (by simp [actions, hact])
          rw [List.countP_append, List.countP_singleton]
          dsimp only at hnow ⊢
          omega
    have hstart := State.stepsLeft_dispatch hok hw hdispatch
    omega
  · obtain ⟨w₁, hw₁, hstart⟩ := State.Progress.start hok hdispatch
    obtain rfl : w = w₁ := Option.some.inj (hw.symm.trans hw₁)
    by_cases hteardown : t.teardown = none
    · cases hworker : t.worker? w.serial with
      | none => exact .inr (.inr (.inr rfl))
      | some w' =>
          have hprogress : s.Progress w.serial tr t := hstart.run hok' hrun hone
          cases hloop : t.control.loop? with
          | none =>
              left
              cases hcontrol : t.control with
              | idle => rfl
              | draining m loop =>
                  rw [hcontrol] at hloop
                  cases hloop
              | calling m loop cur =>
                  rw [hcontrol] at hloop
                  cases hloop
          | some here =>
              obtain ⟨m, loop⟩ := here
              obtain rfl := hprogress.control m loop hloop
              exact .inr (.inl (State.progress hloop hteardown hworker))
    · exact .inr (.inr (.inl hteardown))

/-- In the middle of the same dispatch, before the first callback returns. -/
theorem dispatch_ends_example : ∃ tr₀ tr s s' t w, Runs .init tr₀ s ∧ s.sta = some w ∧
    w.clients = [1, 2] ∧ s.step .dispatch = some s' ∧ Runs s' tr t ∧
    actions tr = [.turn, .destroy 2, .construct 2 4 true] ∧
    tr.countP (ofDispatch ·.2) ≤ 6 * w.clients.length + 3 ∧
      (t.control = .idle ∨ (∃ act u, ofDispatch act = true ∧ t.step act = some u) ∨
        t.teardown ≠ none ∨ t.worker? w.serial = none) := by
  have hexec : ((exec State.step .init [.construct 1 3 true, .construct 2 4 true, .thread .lock,
      .thread (.select ⟨{3, 4}, {3, 4}, ∅⟩), .thread .enter, .thread .work]).bind fun s =>
        (s.step .dispatch).bind fun s' => (exec State.step s' [.turn, .destroy 2,
          .construct 2 4 true]).map fun _ => s.sta.map SocketWorker.clients) =
      some (some [1, 2]) := by decide
  obtain ⟨s, hs, hexec⟩ := Option.bind_eq_some_iff.mp hexec
  obtain ⟨s', hs', hexec⟩ := Option.bind_eq_some_iff.mp hexec
  obtain ⟨t, ht, hsta⟩ := Option.map_eq_some_iff.mp hexec
  obtain ⟨w, hw, hclients⟩ := Option.map_eq_some_iff.mp hsta
  obtain ⟨tr₀, hreach, -⟩ := exec_run _ _ _ _ hs
  obtain ⟨tr, hrun, hacts⟩ := exec_run _ _ _ _ ht
  exact ⟨tr₀, tr, s, s', t, w, hreach, hw, hclients, hs', hrun, hacts,
    dispatch_ends hreach hw hs' hrun (by simp [hacts])⟩

end Select

end Craplib
