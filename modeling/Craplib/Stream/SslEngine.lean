import Craplib.Lib.Conservation
import Craplib.Stream.Contract

/-!
# `ssl::Engine` moves bytes without loss or repetition

The engine stands between an application, a network and OpenSSL, which it reaches
through two memory BIOs.  `transfer_data` is taken apart at the calls it makes, and the
answer to a call is an action: what the streams answer follows `Stream.Contract`, and
a call into OpenSSL (`Call`) takes bytes from the front of `bioIn`, appends bytes to
`bioOut` and returns a number, all three of them arbitrary.

* `relays_out`, `relays_app`, `relays_in` — the three ways through the engine, each with
  its own buffer.
* `loopMeasure_lower` — the loop of `write_socket` runs at most twice.
-/

namespace Craplib

open Machine

namespace Ssl

/-! ## OpenSSL, as far as the engine sees it -/

namespace MemoryBio

/-- `BIO_pending(bio)`, and `int(BIO_ctrl_pending(bio))`. -/
@[irreducible] def pending (bio : Bytes) : ℤ := Int.bmod bio.length (2 ^ 32)

/-- `BIO_write`. -/
def write (bio data : Bytes) : Bytes := bio ++ data

/-- `BIO_read`: what was read, and what is left. -/
def read (bio : Bytes) (n : ℤ) : Bytes × Bytes := (bio.take n.toNat, bio.drop n.toNat)

/-- Once as much has been read as was pending, nothing is. -/
theorem pending_read {bio : Bytes} (h : 0 < pending bio) :
    pending (read bio (pending bio)).2 = 0 := by
  have hle : pending bio ≤ bio.length := by
    unfold pending
    rw [Int.bmod_def]
    split <;> omega
  have hlen : ((read bio (pending bio)).2.length : ℤ) = bio.length - pending bio := by
    rw [read, List.length_drop]
    omega
  unfold pending at hlen ⊢
  rw [hlen]
  exact Int.sub_bmod_bmod.trans (by simp)

end MemoryBio

/-- What `SSL_read` or `SSL_write` does to the BIOs, and the number it returns. -/
structure Call where
  /-- bytes taken from the front of `bioIn` -/
  taken : ℕ
  /-- bytes appended to `bioOut` -/
  put : Bytes
  result : ℤ
  deriving DecidableEq, Repr

/-- `Engine`: the BIOs and the two waiting buffers. -/
structure Engine where
  bioIn : Bytes
  bioOut : Bytes
  waitingToAppData : Bytes
  waitingToSocketData : Bytes
  deriving DecidableEq, Repr

/-- Where the thread is in `transfer_data`. -/
inductive Control
  /-- not in it -/
  | idle
  /-- at `network_in.read(data)` -/
  | readSocket
  /-- at `SSL_read` -/
  | readApp
  /-- at `network_out.write(waiting_to_socket_data)` -/
  | writeSocket
  deriving DecidableEq, Repr

/-- An engine, and where the thread is. -/
structure State where
  control : Control
  engine : Engine
  deriving DecidableEq, Repr

namespace Engine

/-- `Engine(ctx, kind)`. -/
def init : Engine := ⟨[], [], [], []⟩

/-- A call into OpenSSL. -/
def call (self : Engine) (c : Call) : Engine :=
  { self with bioIn := self.bioIn.drop c.taken, bioOut := MemoryBio.write self.bioOut c.put }

/-- `Engine::read`: what it returns and leaves in `data`. -/
def read (self : Engine) : (ℤ × Bytes) × Engine :=
  ((self.waitingToAppData.length, self.waitingToAppData), { self with waitingToAppData := [] })

/-- `Engine::write`, when `SSL_write` is the call `c`. -/
def write (self : Engine) (data : Bytes) (c : Call) : Except Thrown (ℤ × Bytes) × Engine :=
  if data.isEmpty then (.ok (0, data), self)
  else if c.result ≤ 0 then (.ok (0, data), self.call c)
  else
    match data.slice c.result (data.length - c.result) with
    | .error e => (.error e, self.call c)
    | .ok data' => (.ok (c.result, data'), self.call c)

/-- `waiting_to_socket_data = Data(n)`, and what `BIO_read` puts there. -/
def fill (self : Engine) (n : ℤ) : Engine :=
  { self with
    waitingToSocketData := (MemoryBio.read self.bioOut n).1
    bioOut := (MemoryBio.read self.bioOut n).2 }

/-- The loop of `write_socket`, up to the next call of `network_out.write`. -/
def writeSocket (self : Engine) : State :=
  if self.waitingToSocketData.isEmpty then
    if MemoryBio.pending self.bioOut = 0 then ⟨.idle, self⟩
    -- `Data(cbPending)` throws
    else if MemoryBio.pending self.bioOut < 0 then ⟨.idle, self⟩
    else ⟨.writeSocket, self.fill (MemoryBio.pending self.bioOut)⟩
  else ⟨.writeSocket, self⟩

/-- `read_app`, up to `SSL_read`; without it, what follows. -/
def readApp (self : Engine) : State :=
  if self.waitingToAppData.isEmpty then ⟨.readApp, self⟩ else self.writeSocket

/-- `read_socket`, up to `network_in.read`; without it, what follows. -/
def readSocket (self : Engine) : State :=
  if MemoryBio.pending self.bioIn > 64 * 1024 then self.readApp else ⟨.readSocket, self⟩

end Engine

/-- What happens next. -/
inductive Act
  /-- `transfer_data(network_in, network_out)` is called. -/
  | transferData
  /-- The application calls `read(data)`. -/
  | read
  /-- The application calls `write(data)`; `SSL_write` is the call `c`, if it is reached. -/
  | write (data : Bytes) (c : Call)
  /-- `network_in.read(data)` returns `count`. -/
  | networkRead (data : Bytes) (count : ℤ)
  /-- `SSL_read` is the call `c`, and leaves `tmp` in its buffer. -/
  | sslRead (tmp : Bytes) (c : Call)
  /-- `network_out.write(waiting_to_socket_data)` returns `count`, with `data` left. -/
  | networkWrite (data : Bytes) (count : ℤ)
  deriving DecidableEq, Repr

namespace State

/-- A new engine, nobody in it. -/
def init : State := ⟨.idle, Engine.init⟩

/-- One step; `none` when the action does not fit the point the thread is at. -/
def step (s : State) (act : Act) : Option State :=
  let self := s.engine
  match s.control, act with
  | .idle, .transferData => some self.readSocket
  | .idle, .read => some ⟨.idle, self.read.2⟩
  | .idle, .write data c => some ⟨.idle, (self.write data c).2⟩
  | .readSocket, .networkRead data count =>
      if count = 0 then some self.readApp
      else some { self with bioIn := MemoryBio.write self.bioIn data }.readApp
  | .readApp, .sslRead tmp c =>
      let self := self.call c
      if c.result ≤ 0 then some self.writeSocket
      else
        match tmp.slice 0 c.result with
        | .error _ => some ⟨.idle, self⟩
        | .ok data => some { self with waitingToAppData := data }.writeSocket
  | .writeSocket, .networkWrite data _ =>
      let self := { self with waitingToSocketData := data }
      if data.isEmpty then some self.writeSocket else some ⟨.idle, self⟩
  | _, _ => none

end State

/-! ## What went through -/

/-- The answer is one that the contract of the streams, or OpenSSL, allows. -/
def Follows (s : State) : Act → Prop
  | .networkRead data count => DataInputStream.Reads data count
  | .sslRead tmp c => tmp.length = 16384 ∧ c.result ≤ tmp.length
  | .networkWrite data count => DataOutputStream.Writes s.engine.waitingToSocketData data count
  | .write data c => c.result ≤ data.length
  | .transferData | .read => True

instance (s : State) : (act : Act) → Decidable (Follows s act)
  | .networkRead data count => inferInstanceAs (Decidable (DataInputStream.Reads data count))
  | .sslRead tmp c => inferInstanceAs (Decidable (tmp.length = 16384 ∧ c.result ≤ tmp.length))
  | .networkWrite data count =>
      inferInstanceAs (Decidable (DataOutputStream.Writes s.engine.waitingToSocketData data count))
  | .write data c => inferInstanceAs (Decidable (c.result ≤ data.length))
  | .transferData | .read => inferInstanceAs (Decidable True)

/-- The bytes OpenSSL puts into `bioOut` in a step. -/
def put (_ : State) : Act → Bytes
  | .sslRead _ c => c.put
  | .write data c => if data.isEmpty then [] else c.put
  | _ => []

/-- The bytes the network accepts in a step. -/
def sunk (s : State) : Act → Bytes
  | .networkWrite _ count => s.engine.waitingToSocketData.take count.toNat
  | _ => []

/-- The bytes read from the network in a step. -/
def received (_ : State) : Act → Bytes
  | .networkRead data _ => data
  | _ => []

/-- The bytes given to `bioIn` in a step. -/
def given (_ : State) : Act → Bytes
  | .networkRead data count => if count = 0 then [] else data
  | _ => []

/-- The bytes OpenSSL takes from `bioIn` in a step. -/
def consumed (s : State) : Act → Bytes
  | .sslRead _ c => s.engine.bioIn.take c.taken
  | .write data c => if data.isEmpty then [] else s.engine.bioIn.take c.taken
  | _ => []

/-- The plaintext `SSL_read` returns in a step. -/
def plaintext (_ : State) : Act → Bytes
  | .sslRead tmp c => tmp.take c.result.toNat
  | _ => []

/-- The bytes handed to the application in a step. -/
def handed (s : State) : Act → Bytes
  | .read => s.engine.read.1.2
  | _ => []

/-! ## The functions of the engine -/

namespace Engine

variable {self : Engine}

/-- What is on its way to the network. -/
def outgoing (self : Engine) : Bytes := self.waitingToSocketData ++ self.bioOut

/-- The engine is an output stream for the application. -/
theorem writes_write {data : Bytes} {c : Call} (h : c.result ≤ data.length) :
    ∃ data' count, (self.write data c).1 = .ok (count, data') ∧
      DataOutputStream.Writes data data' count := by
  unfold write
  by_cases hempty : data.isEmpty
  · exact ⟨data, 0, by rw [if_pos hempty], [], rfl, rfl⟩
  · rw [if_neg hempty]
    by_cases hfail : c.result ≤ 0
    · exact ⟨data, 0, by rw [if_pos hfail], [], rfl, rfl⟩
    · rw [if_neg hfail, Bytes.slice_rest (by omega) h]
      exact ⟨_, _, rfl, DataOutputStream.writes_iff.mpr ⟨by omega, h, rfl⟩⟩

/-- What `write` does to the engine is the call, if it is reached. -/
theorem write_engine (data : Bytes) (c : Call) :
    (self.write data c).2 = if data.isEmpty then self else self.call c := by
  unfold write
  split
  · rfl
  · split
    · rfl
    · split <;> rfl

theorem fill_bioOut (n : ℤ) : (self.fill n).bioOut = (MemoryBio.read self.bioOut n).2 := rfl

theorem fill_bioIn (n : ℤ) : (self.fill n).bioIn = self.bioIn := rfl

theorem fill_waitingToAppData (n : ℤ) :
    (self.fill n).waitingToAppData = self.waitingToAppData := rfl

/-- Nothing is lost between `bioOut` and an empty waiting buffer. -/
theorem fill_outgoing (h : self.waitingToSocketData = []) (n : ℤ) :
    (self.fill n).outgoing = self.outgoing := by
  simp [outgoing, fill, MemoryBio.read, h]

/-- The ways through the head of the loop of `write_socket`. -/
theorem writeSocket_cases :
    (self.waitingToSocketData ≠ [] ∧ self.writeSocket = ⟨.writeSocket, self⟩) ∨
      (self.waitingToSocketData = [] ∧ MemoryBio.pending self.bioOut ≤ 0 ∧
        self.writeSocket = ⟨.idle, self⟩) ∨
      (self.waitingToSocketData = [] ∧ 0 < MemoryBio.pending self.bioOut ∧
        self.writeSocket = ⟨.writeSocket, self.fill (MemoryBio.pending self.bioOut)⟩) := by
  unfold writeSocket
  rw [← List.isEmpty_iff, ne_eq, ← List.isEmpty_iff]
  split
  · next hempty =>
      split
      · next hzero => exact Or.inr (Or.inl ⟨hempty, by omega, rfl⟩)
      · split
        · next hneg => exact Or.inr (Or.inl ⟨hempty, by omega, rfl⟩)
        · exact Or.inr (Or.inr ⟨hempty, by omega, rfl⟩)
  · next hrest => exact Or.inl ⟨hrest, rfl⟩

/-- **What `writeSocket` leaves alone**: it only moves bytes from `bioOut` to the empty
waiting buffer. -/
theorem writeSocket_spec : self.writeSocket.engine.outgoing = self.outgoing ∧
    self.writeSocket.engine.bioIn = self.bioIn ∧
    self.writeSocket.engine.waitingToAppData = self.waitingToAppData ∧
    self.writeSocket.control ≠ .readApp := by
  rcases @writeSocket_cases self with ⟨-, h⟩ | ⟨-, -, h⟩ | ⟨hnil, -, h⟩
  · rw [h]
    exact ⟨rfl, rfl, rfl, by simp⟩
  · rw [h]
    exact ⟨rfl, rfl, rfl, by simp⟩
  · rw [h]
    exact ⟨fill_outgoing hnil _, fill_bioIn _, fill_waitingToAppData _, by simp⟩

/-- `readApp` reaches `SSL_read` only with nothing waiting for the application. -/
theorem readApp_spec : self.readApp.engine.outgoing = self.outgoing ∧
    self.readApp.engine.bioIn = self.bioIn ∧
    self.readApp.engine.waitingToAppData = self.waitingToAppData ∧
    (self.readApp.control = .readApp → self.waitingToAppData = []) := by
  unfold readApp
  split
  · next hempty => exact ⟨rfl, rfl, rfl, fun _ => List.isEmpty_iff.mp hempty⟩
  · obtain ⟨hout, hin, happ, hctl⟩ := @writeSocket_spec self
    exact ⟨hout, hin, happ, fun h => absurd h hctl⟩

theorem readSocket_spec : self.readSocket.engine.outgoing = self.outgoing ∧
    self.readSocket.engine.bioIn = self.bioIn ∧
    self.readSocket.engine.waitingToAppData = self.waitingToAppData ∧
    (self.readSocket.control = .readApp → self.waitingToAppData = []) := by
  unfold readSocket
  split
  · exact readApp_spec
  · exact ⟨rfl, rfl, rfl, fun h => by cases h⟩

end Engine

/-! ## One step -/

/-- Nothing waits for the application where `SSL_read` is called. -/
def Ready (s : State) : Prop := s.control = .readApp → s.engine.waitingToAppData = []

namespace State

variable {s t : State} {act : Act}

/-- **The steps.** -/
theorem step_cases (h : s.step act = some t) :
    (s.control = .idle ∧ act = .transferData ∧ t = s.engine.readSocket) ∨
      (s.control = .idle ∧ act = .read ∧ t = ⟨.idle, s.engine.read.2⟩) ∨
      (∃ data c, s.control = .idle ∧ act = .write data c ∧
        t = ⟨.idle, if data.isEmpty then s.engine else s.engine.call c⟩) ∨
      (∃ data count, s.control = .readSocket ∧ act = .networkRead data count ∧
        t = { s.engine with
          bioIn := s.engine.bioIn ++ if count = 0 then [] else data }.readApp) ∨
      (∃ tmp c, s.control = .readApp ∧ act = .sslRead tmp c ∧
        ((c.result ≤ 0 ∧ t = (s.engine.call c).writeSocket) ∨
          (0 < c.result ∧ ∃ data, tmp.slice 0 c.result = .ok data ∧
            t = { s.engine.call c with waitingToAppData := data }.writeSocket))) ∨
      ∃ data count, s.control = .writeSocket ∧ act = .networkWrite data count ∧
        ((data = [] ∧ t = { s.engine with waitingToSocketData := data }.writeSocket) ∨
          (data ≠ [] ∧ t = ⟨.idle, { s.engine with waitingToSocketData := data }⟩)) := by
  unfold step at h
  dsimp only at h
  split at h
  · next hc => exact Or.inl ⟨hc, rfl, (Option.some.inj h).symm⟩
  · next hc => exact Or.inr (Or.inl ⟨hc, rfl, (Option.some.inj h).symm⟩)
  · next data c hc =>
      rw [Engine.write_engine] at h
      exact Or.inr (Or.inr (Or.inl ⟨data, c, hc, rfl, (Option.some.inj h).symm⟩))
  · next data count hc =>
      refine Or.inr (Or.inr (Or.inr (Or.inl ⟨data, count, hc, rfl, ?_⟩)))
      by_cases hzero : count = 0
      · rw [if_pos hzero] at h
        simpa [hzero] using (Option.some.inj h).symm
      · rw [if_neg hzero] at h
        simpa [hzero, MemoryBio.write] using (Option.some.inj h).symm
  · next tmp c hc =>
      refine Or.inr (Or.inr (Or.inr (Or.inr (Or.inl ⟨tmp, c, hc, rfl, ?_⟩))))
      by_cases hfail : c.result ≤ 0
      · rw [if_pos hfail] at h
        exact Or.inl ⟨hfail, (Option.some.inj h).symm⟩
      · rw [if_neg hfail, Bytes.slice_zero] at h
        exact Or.inr ⟨by omega, _, Bytes.slice_zero _ _, (Option.some.inj h).symm⟩
  · next data count hc =>
      refine Or.inr (Or.inr (Or.inr (Or.inr (Or.inr ⟨data, count, hc, rfl, ?_⟩))))
      by_cases hempty : data.isEmpty
      · rw [if_pos hempty] at h
        exact Or.inl ⟨List.isEmpty_iff.mp hempty, (Option.some.inj h).symm⟩
      · rw [if_neg hempty] at h
        exact Or.inr ⟨fun hnil => hempty (List.isEmpty_iff.mpr hnil), (Option.some.inj h).symm⟩
  · cases h

/-- Every step keeps the place of the application's data free where `SSL_read` is called. -/
theorem ready_step (h : s.step act = some t) : Ready t := by
  have hwrite : ∀ self : Engine, Ready self.writeSocket := fun self hc =>
    absurd hc Engine.writeSocket_spec.2.2.2
  have happ : ∀ self : Engine, Ready self.readApp := by
    intro self hc
    rw [Engine.readApp_spec.2.2.1]
    exact Engine.readApp_spec.2.2.2 hc
  rcases step_cases h with ⟨-, -, rfl⟩ | ⟨-, -, rfl⟩ | ⟨_, _, -, -, rfl⟩ | ⟨_, _, -, -, rfl⟩ |
    ⟨_, _, -, -, ⟨-, rfl⟩ | ⟨-, _, -, rfl⟩⟩ | ⟨_, _, -, -, ⟨-, rfl⟩ | ⟨-, rfl⟩⟩
  · intro hc
    rw [Engine.readSocket_spec.2.2.1]
    exact Engine.readSocket_spec.2.2.2 hc
  · exact fun hc => by cases hc
  · exact fun hc => by cases hc
  · exact happ _
  · exact hwrite _
  · exact hwrite _
  · exact hwrite _
  · exact fun hc => by cases hc

/-- How often `write_socket` calls `network_out.write` from here on, at most: once, and once
more when something is pending that the loop can go on with. -/
def loopMeasure (s : State) : ℕ :=
  if s.control = .writeSocket then if MemoryBio.pending s.engine.bioOut ≤ 0 then 1 else 2 else 0

theorem loopMeasure_idle (self : Engine) : loopMeasure ⟨.idle, self⟩ = 0 := rfl

theorem loopMeasure_writeSocket {self : Engine} (hnil : self.waitingToSocketData = []) :
    self.writeSocket.loopMeasure < if MemoryBio.pending self.bioOut ≤ 0 then 1 else 2 := by
  rcases @Engine.writeSocket_cases self with ⟨hne, -⟩ | ⟨-, -, heq⟩ | ⟨-, hpend, heq⟩
  · exact absurd hnil hne
  · rw [heq, loopMeasure_idle]
    split <;> omega
  · -- the whole of `bioOut` was fetched
    have hrest : MemoryBio.pending (self.fill (MemoryBio.pending self.bioOut)).bioOut = 0 := by
      rw [Engine.fill_bioOut]
      exact MemoryBio.pending_read hpend
    rw [heq, loopMeasure, if_pos rfl, hrest, if_pos (Int.le_refl 0), if_neg (by omega)]
    exact Nat.lt_succ_self 1

/-- **The loop of `write_socket` comes to an end**, whatever the network answers. -/
theorem loopMeasure_lower (h : s.step act = some t) (hc : s.control = .writeSocket) :
    t.loopMeasure < s.loopMeasure := by
  have hs : s.loopMeasure = if MemoryBio.pending s.engine.bioOut ≤ 0 then 1 else 2 := by
    rw [loopMeasure, if_pos hc]
  rcases step_cases h with ⟨hc', -⟩ | ⟨hc', -⟩ | ⟨_, _, hc', -⟩ | ⟨_, _, hc', -⟩ |
    ⟨_, _, hc', -⟩ | ⟨data, _, -, -, ⟨rfl, rfl⟩ | ⟨-, rfl⟩⟩
  · rw [hc] at hc'
    cases hc'
  · rw [hc] at hc'
    cases hc'
  · rw [hc] at hc'
    cases hc'
  · rw [hc] at hc'
    cases hc'
  · rw [hc] at hc'
    cases hc'
  · rw [hs]
    exact loopMeasure_writeSocket rfl
  · rw [hs, loopMeasure_idle]
    split <;> omega

end State

/-- A step of the engine between streams that follow the contract. -/
def Step (s : State) (act : Act) (t : State) : Prop :=
  Fires State.step s act t ∧ Follows s act ∧ Ready s

variable {s t : State} {act : Act}

/-- **To the network**: every byte OpenSSL puts into `bioOut`. -/
theorem relays_out : Relays Step put sunk fun s => s.engine.outgoing := by
  rintro s act t ⟨hstep, hfollows, -⟩
  rcases State.step_cases hstep with ⟨-, rfl, rfl⟩ | ⟨-, rfl, rfl⟩ | ⟨data, c, -, rfl, rfl⟩ |
    ⟨data, count, -, rfl, rfl⟩ | ⟨tmp, c, -, rfl, ⟨-, rfl⟩ | ⟨-, data, -, rfl⟩⟩ |
    ⟨data, count, -, rfl, hnext⟩
  · simp [sunk, put, Engine.readSocket_spec.1]
  · simp [sunk, put, Engine.read, Engine.outgoing]
  · by_cases hempty : data.isEmpty
    · simp [sunk, put, hempty]
    · simp [sunk, put, hempty, Engine.call, Engine.outgoing, MemoryBio.write]
  · simp only [Engine.readApp_spec.1]
    simp [sunk, put, Engine.outgoing]
  · simp only [Engine.writeSocket_spec.1]
    simp [sunk, put, Engine.call, Engine.outgoing, MemoryBio.write]
  · simp only [Engine.writeSocket_spec.1]
    simp [sunk, put, Engine.call, Engine.outgoing, MemoryBio.write]
  · -- the accepted bytes are the front of what was waiting
    have hcut : s.engine.waitingToSocketData.take count.toNat ++ data =
        s.engine.waitingToSocketData := DataOutputStream.Writes.take_append hfollows
    have hout : t.engine.outgoing = data ++ s.engine.bioOut := by
      rcases hnext with ⟨-, rfl⟩ | ⟨-, rfl⟩
      · rw [Engine.writeSocket_spec.1]
        rfl
      · rfl
    simp only [hout, sunk, put, List.append_nil]
    rw [← List.append_assoc, hcut]
    rfl

/-- **To the application**: the plaintext `SSL_read` returns. -/
theorem relays_app : Relays Step plaintext handed fun s => s.engine.waitingToAppData := by
  rintro s act t ⟨hstep, hfollows, hready⟩
  rcases State.step_cases hstep with ⟨-, rfl, rfl⟩ | ⟨-, rfl, rfl⟩ | ⟨data, c, -, rfl, rfl⟩ |
    ⟨data, count, -, rfl, rfl⟩ | ⟨tmp, c, hc, rfl, ⟨hfail, rfl⟩ | ⟨-, data, hdata, rfl⟩⟩ |
    ⟨data, count, -, rfl, hnext⟩
  · simp [handed, plaintext, Engine.readSocket_spec.2.2.1]
  · simp [handed, plaintext, Engine.read]
  · by_cases hempty : data.isEmpty
    · simp [handed, plaintext, hempty]
    · simp [handed, plaintext, hempty, Engine.call]
  · simp [handed, plaintext, Engine.readApp_spec.2.2.1]
  · simp [handed, plaintext, Engine.writeSocket_spec.2.2.1, Engine.call,
      Int.toNat_of_nonpos hfail]
  · -- what is read takes the place of an empty buffer
    rw [Bytes.slice_front hfollows.2] at hdata
    simp only [Engine.writeSocket_spec.2.2.1, ← Except.ok.inj hdata, hready hc]
    rfl
  · have happ : t.engine.waitingToAppData = s.engine.waitingToAppData := by
      rcases hnext with ⟨-, rfl⟩ | ⟨-, rfl⟩
      · exact Engine.writeSocket_spec.2.2.1
      · rfl
    simp [happ, handed, plaintext]

/-- **To OpenSSL**: the bytes given to `bioIn`. -/
theorem relays_in : Relays Step given consumed fun s => s.engine.bioIn := by
  rintro s act t ⟨hstep, -, -⟩
  rcases State.step_cases hstep with ⟨-, rfl, rfl⟩ | ⟨-, rfl, rfl⟩ | ⟨data, c, -, rfl, rfl⟩ |
    ⟨data, count, -, rfl, rfl⟩ | ⟨tmp, c, -, rfl, ⟨-, rfl⟩ | ⟨-, data, -, rfl⟩⟩ |
    ⟨data, count, -, rfl, hnext⟩
  · simp [consumed, given, Engine.readSocket_spec.2.1]
  · simp [consumed, given, Engine.read]
  · by_cases hempty : data.isEmpty
    · simp [consumed, given, hempty]
    · simp [consumed, given, hempty, Engine.call]
  · simp [consumed, given, Engine.readApp_spec.2.1]
  · simp [consumed, given, Engine.writeSocket_spec.2.1, Engine.call]
  · simp [consumed, given, Engine.writeSocket_spec.2.1, Engine.call]
  · have hin : t.engine.bioIn = s.engine.bioIn := by
      rcases hnext with ⟨-, rfl⟩ | ⟨-, rfl⟩
      · exact Engine.writeSocket_spec.2.1
      · rfl
    simp [hin, consumed, given]

/-- What is read from the network is given to `bioIn`. -/
theorem given_eq_received (h : Follows s act) : given s act = received s act := by
  cases act with
  | networkRead data count =>
      by_cases hzero : count = 0
      · simp [given, received, hzero, (DataInputStream.Reads.eq_nil_iff h).mp hzero]
      · simp [given, received, hzero]
  | transferData | read | write | sslRead | networkWrite => rfl

/-! ## Whole runs -/

/-- **The engine moves bytes without loss or repetition.**  In every run of calls of
`transfer_data`, `read` and `write`, whatever the network and OpenSSL answer: the bytes the
network accepted, then those waiting for it, then the content of `bioOut`, are the bytes
OpenSSL put there; what was handed to the application, then what waits for it, is the
plaintext `SSL_read` returned; what was given to `bioIn` is what was read from the network,
and what OpenSSL took from it, then its content, is what was given to it.  And the loop of
`write_socket` is never stuck, and makes at most two calls. -/
theorem moves_without_loss {tr : List (State × Act)}
    (hrun : Run (Fires State.step) State.init tr s) (hfollows : ∀ p ∈ tr, Follows p.1 p.2) :
    (flow sunk tr ++ s.engine.waitingToSocketData ++ s.engine.bioOut = flow put tr ∧
      flow handed tr ++ s.engine.waitingToAppData = flow plaintext tr ∧
      flow given tr = flow received tr ∧
      flow consumed tr ++ s.engine.bioIn = flow given tr) ∧
    (s.control = .writeSocket → ∀ data count, (s.step (.networkWrite data count)).isSome) ∧
    ∀ loop t, Run (Fires State.step) s loop t → (∀ p ∈ loop, p.1.control = .writeSocket) →
      loop.length ≤ 2 := by
  have hready : ∀ p ∈ tr, Ready p.1 := by
    intro p hp
    obtain ⟨pre, _, _, -, hpre, -, -⟩ := hrun.of_mem hp
    exact Run.invariant (I := Ready) (fun _ _ _ _ h => State.ready_step h) hpre
      (fun h => by cases h)
  have hsteps : Run Step State.init tr s := hrun.restrict fun p hp => ⟨hfollows p hp, hready p hp⟩
  refine ⟨⟨?_, relays_app.flow hsteps, flow_congr fun p hp => given_eq_received (hfollows p hp),
    relays_in.flow hsteps⟩, ?_, ?_⟩
  · rw [List.append_assoc]
    exact relays_out.flow hsteps
  · intro hc data count
    unfold State.step
    rw [hc]
    dsimp only
    split <;> rfl
  · intro loop t hloop hin
    have hwriting : Run (fun s a t => Fires State.step s a t ∧ s.control = .writeSocket) s loop t :=
      hloop.restrict hin
    have hlow := hwriting.length_le State.loopMeasure fun _ _ _ h =>
      State.loopMeasure_lower h.1 h.2
    have hstart : s.loopMeasure ≤ 2 := by
      unfold State.loopMeasure
      split
      · split <;> omega
      · omega
    omega

/-- A run in which a record arrives, its plaintext is handed on, and part of the answer is
accepted by the network in a first call and the rest in a second one. -/
theorem moves_without_loss_example : ∃ tr s,
    Run (Fires State.step) State.init tr s ∧
    actions tr = [.transferData, .networkRead [1, 2, 3] 3,
      .sslRead ([7, 8] ++ List.replicate 16382 0) ⟨3, [4, 5], 2⟩, .networkWrite [5] 1, .read,
      .write [9] ⟨0, [6], 1⟩, .transferData, .networkRead [] 0,
      .sslRead (List.replicate 16384 0) ⟨0, [], -1⟩, .networkWrite [] 1] ∧
    (flow sunk tr ++ s.engine.waitingToSocketData ++ s.engine.bioOut = flow put tr ∧
      flow handed tr ++ s.engine.waitingToAppData = flow plaintext tr ∧
      flow given tr = flow received tr ∧
      flow consumed tr ++ s.engine.bioIn = flow given tr) ∧
    s.engine.waitingToSocketData = [6] ∧
    (s.step (.networkWrite [] 1)).isSome ∧
    ∀ loop t, Run (Fires State.step) s loop t → (∀ p ∈ loop, p.1.control = .writeSocket) →
      loop.length ≤ 2 := by
  have hexec : exec State.step State.init [.transferData, .networkRead [1, 2, 3] 3,
      .sslRead ([7, 8] ++ List.replicate 16382 0) ⟨3, [4, 5], 2⟩, .networkWrite [5] 1, .read,
      .write [9] ⟨0, [6], 1⟩, .transferData, .networkRead [] 0,
      .sslRead (List.replicate 16384 0) ⟨0, [], -1⟩, .networkWrite [] 1] =
      some ⟨.writeSocket, [], [], [], [6]⟩ := by decide +kernel
  obtain ⟨hrun, hacts⟩ := exec_trace _ _ _ _ hexec
  obtain ⟨hmoves, hnext, hloop⟩ := moves_without_loss hrun (by decide +kernel)
  exact ⟨_, _, hrun, hacts, hmoves, rfl, hnext rfl [] 1, hloop⟩

end Ssl

end Craplib
