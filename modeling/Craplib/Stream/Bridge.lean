import Craplib.Lib.Conservation
import Craplib.Stream.Contract

/-!
# `DataStreamBridge` relays every byte once

`move_data` runs until it calls a function of one of its streams; the answer of the
stream is the next action.  What a stream answers is arbitrary as long as it follows
the contract of `Stream.Contract`, and a call can follow on any number of others, with
a remainder in `buffer` or without one.
-/

namespace Craplib

open Machine

namespace DataStreamBridge

/-- Where the thread is in `move_data`. -/
inductive Control
  /-- not in it -/
  | idle
  /-- at `sin.read(buffer)` -/
  | reading
  /-- at `sout.write(buffer)` -/
  | writing
  deriving DecidableEq, Repr

/-- A `DataStreamBridge`, and where the thread is. -/
structure State where
  control : Control
  buffer : Bytes
  deriving DecidableEq, Repr

/-- What happens next. -/
inductive Act
  /-- `move_data(sin, sout)` is called. -/
  | moveData
  /-- `sin.read(buffer)` returns `count`, with `data` in `buffer`. -/
  | read (data : Bytes) (count : ℤ)
  /-- `sout.write(buffer)` returns `count`, with `data` left in `buffer`. -/
  | write (data : Bytes) (count : ℤ)
  deriving DecidableEq, Repr

namespace State

/-- `DataStreamBridge()`. -/
def init : State := ⟨.idle, []⟩

/-- The body of the loop, up to the first call of a stream. -/
def loop (buffer : Bytes) : State :=
  if buffer.isEmpty then ⟨.reading, buffer⟩ else ⟨.writing, buffer⟩

/-- One step; `none` when the action does not fit the point the thread is at. -/
def step (s : State) (act : Act) : Option State :=
  match s.control, act with
  | .idle, .moveData => some (loop s.buffer)
  | .reading, .read data count =>
      -- the empty `buffer` stays when there was nothing to read
      if count = 0 then some ⟨.idle, data⟩ else some ⟨.writing, data⟩
  | .writing, .write data _ => if data.isEmpty then some (loop data) else some ⟨.idle, data⟩
  | _, _ => none

end State

/-! ## What went through -/

/-- The answer is one that the contract allows. -/
def Follows (s : State) : Act → Prop
  | .moveData => True
  | .read data count => DataInputStream.Reads data count
  | .write data count => DataOutputStream.Writes s.buffer data count

instance (s : State) : (act : Act) → Decidable (Follows s act)
  | .moveData => inferInstanceAs (Decidable True)
  | .read data count => inferInstanceAs (Decidable (DataInputStream.Reads data count))
  | .write data count => inferInstanceAs (Decidable (DataOutputStream.Writes s.buffer data count))

/-- The bytes the source delivers in a step. -/
def delivers (_ : State) : Act → Bytes
  | .read data _ => data
  | _ => []

/-- The bytes the sink accepts in a step. -/
def accepts (s : State) : Act → Bytes
  | .write _ count => s.buffer.take count.toNat
  | _ => []

/-- A call of `move_data` returns in this step. -/
def Returns (s : State) (act : Act) : Prop := ∃ t, s.step act = some t ∧ t.control = .idle

/-- The source had nothing, or the sink refused part of what it was handed. -/
def Stuck : Act → Prop
  | .moveData => False
  | .read data count => count = 0 ∧ data = []
  | .write data _ => data ≠ []

/-! ## One step -/

/-- The buffer is empty where the source is read. -/
def Ready (s : State) : Prop := s.control = .reading → s.buffer = []

namespace State

variable {s t : State} {act : Act}

theorem buffer_loop (buffer : Bytes) : (loop buffer).buffer = buffer := by
  unfold loop
  split <;> rfl

theorem control_loop (buffer : Bytes) : (loop buffer).control ≠ .idle := by
  unfold loop
  split <;> simp

theorem ready_loop (buffer : Bytes) : Ready (loop buffer) := by
  unfold loop Ready
  split
  · next hempty => exact fun _ => List.isEmpty_iff.mp hempty
  · exact fun h => by cases h

/-- **The steps of `move_data`.** -/
theorem step_cases (h : s.step act = some t) :
    (s.control = .idle ∧ act = .moveData ∧ t = loop s.buffer) ∨
      (∃ data count, s.control = .reading ∧ act = .read data count ∧
        t = ⟨if count = 0 then .idle else .writing, data⟩) ∨
      ∃ data count, s.control = .writing ∧ act = .write data count ∧
        t = if data.isEmpty then loop data else ⟨.idle, data⟩ := by
  unfold step at h
  split at h
  · next hc => exact Or.inl ⟨hc, rfl, (Option.some.inj h).symm⟩
  · next data count hc =>
      refine Or.inr (Or.inl ⟨data, count, hc, rfl, ?_⟩)
      split at h
      · next hzero =>
          rw [if_pos hzero]
          exact (Option.some.inj h).symm
      · next hpos =>
          rw [if_neg hpos]
          exact (Option.some.inj h).symm
  · next data count hc =>
      refine Or.inr (Or.inr ⟨data, count, hc, rfl, ?_⟩)
      split at h
      · next hempty =>
          rw [if_pos hempty]
          exact (Option.some.inj h).symm
      · next hrest =>
          rw [if_neg hrest]
          exact (Option.some.inj h).symm
  · cases h

/-- Every step keeps the buffer empty where the source is read. -/
theorem ready_step (h : s.step act = some t) : Ready t := by
  rcases step_cases h with ⟨-, -, rfl⟩ | ⟨data, count, -, -, rfl⟩ | ⟨data, count, -, -, rfl⟩
  · exact ready_loop s.buffer
  · intro hc
    by_cases hzero : count = 0
    · simp [hzero] at hc
    · simp [hzero] at hc
  · by_cases hempty : data.isEmpty
    · rw [if_pos hempty]
      exact ready_loop data
    · rw [if_neg hempty]
      exact fun hc => by cases hc

end State

/-- A step of the bridge between streams that follow the contract. -/
def Step (s : State) (act : Act) (t : State) : Prop :=
  Fires State.step s act t ∧ Follows s act ∧ Ready s

/-- **One step loses no byte and makes none up.** -/
theorem relays : Relays Step delivers accepts State.buffer := by
  rintro s act t ⟨hstep, hfollows, hready⟩
  rcases State.step_cases hstep with ⟨-, rfl, rfl⟩ | ⟨data, count, hc, rfl, rfl⟩ |
    ⟨data, count, -, rfl, rfl⟩
  · simp [accepts, delivers, State.buffer_loop]
  · -- what is read takes the place of an empty buffer
    simp [accepts, delivers, hready hc]
  · have hcut : s.buffer.take count.toNat ++ data = s.buffer :=
      DataOutputStream.Writes.take_append hfollows
    have hbuffer : (if data.isEmpty then State.loop data else ⟨.idle, data⟩).buffer = data := by
      split
      · exact State.buffer_loop data
      · rfl
    simp only [accepts, delivers, hbuffer, List.append_nil, hcut]

/-- A call returns only when it is stuck. -/
theorem stuck_of_returns {s : State} {act : Act} (hfollows : Follows s act)
    (h : Returns s act) : Stuck act := by
  obtain ⟨t, hstep, hidle⟩ := h
  rcases State.step_cases hstep with ⟨-, rfl, rfl⟩ | ⟨data, count, -, rfl, rfl⟩ |
    ⟨data, count, -, rfl, rfl⟩
  · exact absurd hidle (State.control_loop _)
  · by_cases hzero : count = 0
    · exact ⟨hzero, (DataInputStream.Reads.eq_nil_iff hfollows).mp hzero⟩
    · simp [hzero] at hidle
  · intro hempty
    subst hempty
    exact State.control_loop [] hidle

/-! ## Whole runs -/

/-- **The bridge relays every byte once.**  A socket follows the contract of the streams
whatever `recv` and `send` return.  Between any two streams that follow it, in every run
of calls of `move_data`, what the sink has accepted followed by `buffer` is what the
source has delivered; and a call returns only when the source had nothing or the sink
refused part of `buffer`. -/
theorem relays_every_byte :
    (∀ (r : ℤ) (d : Bytes), r ≤ d.length → ∃ data count, RWSocket.read r d = .ok (count, data) ∧
        data = d.take r.toNat ∧ DataInputStream.Reads data count) ∧
      (∀ (written : ℤ) (data : Bytes), written ≤ data.length →
        ∃ data' count, RWSocket.write written data = .ok (count, data') ∧
          data.take written.toNat ++ data' = data ∧ DataOutputStream.Writes data data' count) ∧
      ∀ tr s, Run (Fires State.step) State.init tr s → (∀ p ∈ tr, Follows p.1 p.2) →
        flow accepts tr ++ s.buffer = flow delivers tr ∧
          ∀ p ∈ tr, Returns p.1 p.2 → Stuck p.2 := by
  refine ⟨fun r d h => ⟨_, _, RWSocket.read_eq h, rfl, RWSocket.reads h⟩,
    fun written data h => ⟨_, _, RWSocket.write_eq h, List.take_append_drop _ _,
      RWSocket.writes h⟩, fun tr s hrun hfollows => ⟨?_, ?_⟩⟩
  · have hready : ∀ p ∈ tr, Ready p.1 := by
      intro p hp
      obtain ⟨pre, _, _, -, hpre, -, -⟩ := hrun.of_mem hp
      exact Run.invariant (I := Ready) (fun _ _ _ _ h => State.ready_step h) hpre
        (fun h => by cases h)
    have hsteps : Run Step State.init tr s :=
      hrun.restrict fun p hp => ⟨hfollows p hp, hready p hp⟩
    exact relays.flow hsteps
  · exact fun p hp hret => stuck_of_returns (hfollows p hp) hret

/-- The bridge between a socket that receives three bytes and one that sends two of them,
and the third in a later call. -/
theorem relays_every_byte_example : ∃ tr s,
    Run (Fires State.step) State.init tr s ∧
    actions tr = [.moveData, .read [1, 2, 3] 3, .write [3] 2, .moveData, .write [] 1, .read [] 0] ∧
    (∃ data count, RWSocket.read 3 [1, 2, 3, 0, 0] = .ok (count, data) ∧
      data = [1, 2, 3] ∧ DataInputStream.Reads data count) ∧
    (∃ data' count, RWSocket.write 2 [1, 2, 3] = .ok (count, data') ∧
      [1, 2] ++ data' = [1, 2, 3] ∧ DataOutputStream.Writes [1, 2, 3] data' count) ∧
    flow accepts tr ++ s.buffer = flow delivers tr ∧ ∀ p ∈ tr, Returns p.1 p.2 → Stuck p.2 := by
  have hexec : exec State.step State.init [.moveData, .read [1, 2, 3] 3, .write [3] 2, .moveData,
    .write [] 1, .read [] 0] = some ⟨.idle, []⟩ := by decide
  obtain ⟨hrun, hacts⟩ := exec_trace _ _ _ _ hexec
  refine ⟨_, _, hrun, hacts, relays_every_byte.1 3 [1, 2, 3, 0, 0] (by decide),
    relays_every_byte.2.1 2 [1, 2, 3] (by decide),
    relays_every_byte.2.2 _ _ hrun (by decide)⟩

end DataStreamBridge

end Craplib
