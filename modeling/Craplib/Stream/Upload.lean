import Craplib.Stream.Bridge
import Craplib.Stream.WholeFile

/-!
# A file moved to a socket

`move_data` between a `FileReader` and an `RWSocket`.  The loop asks for the next 64 KiB when
`buffer` is empty and hands them to `send`; it returns when `fread` gives nothing or `send`
takes less than it was handed, and the next call goes on where it stopped.

`uploads` is what holds in every run, however `fread` and `send` end: nothing is lost or sent
twice over, a call that returns tells by its last step whether the whole file has been sent,
and a call is over after a number of steps that the rest of the file bounds.
-/

namespace Craplib

open Machine

/-- What an `fread` gives is what the file no longer has to give. -/
theorem File.remaining_fread {fp fp' : File} {n : ℕ} {how : FreadEnd} {bytes : Bytes}
    (h : fp.fread n how = some (bytes, fp')) :
    fp'.remaining.length + bytes.length = fp.remaining.length := by
  rw [(File.fread_spec h).1, List.length_append, Nat.add_comm]

/-- An `fread` that ends well gives bytes as long as there are any. -/
theorem File.remaining_of_fread_nil {fp fp' : File} {n : ℕ} (hn : 0 < n)
    (h : fp.fread n .ok = some ([], fp')) : fp'.remaining = [] := by
  simp only [File.fread, Option.some.injEq, Prod.mk.injEq] at h
  obtain ⟨hnone, rfl⟩ := h
  have hempty : fp.remaining = [] := by simpa [Nat.ne_of_gt hn] using hnone
  simp [hempty]

namespace FileReader

/-- `read(Data & data)`, on the bytes of `data`: `data = read(64*1024)`, and its size. -/
def readData (self : FileReader) (how : FreadEnd) : Option (ℤ × Bytes × FileReader) :=
  (self.fp.fread (64 * 1024) how).map fun r => (r.1.length, r.1, ⟨r.2⟩)

variable {fr fr' : FileReader} {how : FreadEnd} {count : ℤ} {data : Bytes}

theorem readData_eq_some :
    fr.readData how = some (count, data, fr') ↔
      fr.fp.fread (64 * 1024) how = some (data, fr'.fp) ∧ count = data.length := by
  unfold readData
  rw [Option.map_eq_some_iff]
  constructor
  · rintro ⟨⟨bytes, fp⟩, hfread, heq⟩
    simp only [Prod.mk.injEq] at heq
    obtain ⟨rfl, rfl, rfl⟩ := heq
    exact ⟨hfread, rfl⟩
  · rintro ⟨hfread, rfl⟩
    exact ⟨_, hfread, rfl⟩

/-- It is what `read(64*1024)` shows, on fresh memory. -/
theorem readData_shows {m : Mem} (hm : m.Fresh) (raw : Bytes)
    (h : fr.readData how = some (count, data, fr')) :
    ∃ d m', fr.read (64 * 1024) raw how m = some (.ok (d, fr'), m') ∧
      Data.shown m' d = some data := by
  obtain ⟨hfread, -⟩ := readData_eq_some.mp h
  exact read_shows hm fr raw (by decide) (by decide) hfread

end FileReader

/-- A `FileReader`, and the `DataStreamBridge` that moves it to a socket. -/
structure Upload where
  sin : FileReader
  bridge : DataStreamBridge.State
  deriving DecidableEq, Repr

namespace Upload

open DataStreamBridge (State)

/-- What happens next. -/
inductive Act
  /-- `move_data(sin, sout)` is called. -/
  | moveData
  /-- `sin.read(buffer)`; its `fread` ends so. -/
  | read (how : FreadEnd)
  /-- `sout.write(buffer)`; its `send` returns `written`. -/
  | write (written : ℤ)
  deriving DecidableEq, Repr

/-- A file with this content, just opened. -/
def init (content : Bytes) : Upload := ⟨⟨⟨[], content, false⟩⟩, State.init⟩

/-- What the streams do in a step, as the bridge sees it, and the file afterwards; `send` takes
no more than it is handed. -/
def answer (s : Upload) : Act → Option (DataStreamBridge.Act × FileReader)
  | .moveData => some (.moveData, s.sin)
  | .read how => (s.sin.readData how).map fun r => (.read r.2.1 r.1, r.2.2)
  | .write written =>
      if written ≤ s.bridge.buffer.length then
        match RWSocket.write written s.bridge.buffer with
        | .ok (count, data) => some (.write data count, s.sin)
        | .error _ => none
      else none

/-- One step. -/
def step (s : Upload) (act : Act) : Option Upload := do
  let (b, sin) ← s.answer act
  let bridge ← s.bridge.step b
  return ⟨sin, bridge⟩

/-- The bytes that a step takes from the file. -/
def takes (s : Upload) : Act → Bytes
  | .read how => ((s.sin.fp.fread (64 * 1024) how).map Prod.fst).getD []
  | _ => []

/-- The bytes that a step sends. -/
def sends (s : Upload) : Act → Bytes
  | .write written => s.bridge.buffer.take written.toNat
  | _ => []

/-- A call of `move_data` returns in this step. -/
def Returns (s : Upload) (act : Act) : Prop :=
  ∃ t, s.step act = some t ∧ t.bridge.control = .idle

/-- The steps of one call: the first one calls `move_data`, the others are made inside it. -/
def OneCall (tr : List (Upload × Act)) : Prop := ∀ p ∈ tr.tail, p.1.bridge.control ≠ .idle

/-! ## One step -/

variable {s t : Upload} {act : Act} {b : DataStreamBridge.Act} {sin : FileReader}

theorem step_eq_some : s.step act = some t ↔
    ∃ b, s.answer act = some (b, t.sin) ∧ s.bridge.step b = some t.bridge := by
  unfold step
  constructor
  · intro h
    obtain ⟨⟨b, sin⟩, hanswer, hrest⟩ := Option.bind_eq_some_iff.mp h
    obtain ⟨bridge, hbridge, hlast⟩ := Option.bind_eq_some_iff.mp hrest
    obtain rfl := Option.some.inj hlast
    exact ⟨b, hanswer, hbridge⟩
  · rintro ⟨b, hanswer, hbridge⟩
    simp [hanswer, hbridge]

/-- The file is read, and the socket written to, where the bridge says so. -/
theorem answer_cases (h : s.answer act = some (b, sin)) :
    (act = .moveData ∧ b = .moveData ∧ sin = s.sin) ∨
    (∃ how data, act = .read how ∧ b = .read data data.length ∧
      s.sin.fp.fread (64 * 1024) how = some (data, sin.fp)) ∨
    ∃ written, act = .write written ∧ written ≤ s.bridge.buffer.length ∧
      b = .write (s.bridge.buffer.drop written.toNat) (max written 0) ∧ sin = s.sin := by
  cases act with
  | moveData =>
      obtain ⟨rfl, rfl⟩ := Prod.mk.inj (Option.some.inj h)
      exact Or.inl ⟨rfl, rfl, rfl⟩
  | read how =>
      obtain ⟨⟨count, data, fr⟩, hread, heq⟩ := Option.map_eq_some_iff.mp h
      obtain ⟨rfl, rfl⟩ := Prod.mk.inj heq
      obtain ⟨hfread, rfl⟩ := FileReader.readData_eq_some.mp hread
      exact Or.inr (Or.inl ⟨how, data, rfl, rfl, hfread⟩)
  | write written =>
      simp only [answer] at h
      split at h
      · next hle =>
          rw [RWSocket.write_eq hle] at h
          obtain ⟨rfl, rfl⟩ := Prod.mk.inj (Option.some.inj h)
          exact Or.inr (Or.inr ⟨written, rfl, hle, rfl, rfl⟩)
      · cases h

/-- Both streams keep their contract. -/
theorem follows_of_answer (h : s.answer act = some (b, sin)) :
    DataStreamBridge.Follows s.bridge b := by
  rcases answer_cases h with ⟨-, rfl, -⟩ | ⟨how, data, -, rfl, -⟩ | ⟨written, -, hle, rfl, -⟩
  · trivial
  · exact rfl
  · exact RWSocket.writes hle

/-- What the bridge hands on and what it is handed, and what that does to the file. -/
theorem flow_of_answer (h : s.answer act = some (b, sin)) :
    DataStreamBridge.accepts s.bridge b = s.sends act ∧
      DataStreamBridge.delivers s.bridge b = s.takes act ∧
      sin.fp.consumed = s.sin.fp.consumed ++ s.takes act ∧
      s.sin.fp.remaining = s.takes act ++ sin.fp.remaining := by
  rcases answer_cases h with ⟨rfl, rfl, rfl⟩ | ⟨how, data, rfl, rfl, hfread⟩ |
    ⟨written, rfl, hle, rfl, rfl⟩
  · simp [DataStreamBridge.accepts, DataStreamBridge.delivers, sends, takes]
  · obtain ⟨hremaining, hconsumed, -⟩ := File.fread_spec hfread
    have htakes : s.takes (.read how) = data := by simp [takes, hfread]
    rw [htakes]
    exact ⟨rfl, rfl, hconsumed, hremaining⟩
  · have hcount : (max written 0).toNat = written.toNat := by omega
    simp [DataStreamBridge.accepts, DataStreamBridge.delivers, sends, takes, hcount]

/-- What a step takes from the file or sends, it takes from what was there. -/
theorem relays : Relays
    (fun s act t => Fires step s act t ∧ DataStreamBridge.Ready s.bridge) takes sends
    fun s => s.bridge.buffer := by
  rintro s act t ⟨hstep, hready⟩
  obtain ⟨b, hanswer, hbridge⟩ := step_eq_some.mp hstep
  obtain ⟨haccepts, hdelivers, -, -⟩ := flow_of_answer hanswer
  have hrelays := DataStreamBridge.relays s.bridge b t.bridge
    ⟨hbridge, follows_of_answer hanswer, hready⟩
  rwa [haccepts, hdelivers] at hrelays

/-- **How a call ends**: with a `read` that gives nothing or a `write` that does not take it
all. -/
theorem returns_cases (h : s.Returns act) :
    (∃ how fp, act = .read how ∧ s.bridge.control = .reading ∧
      s.sin.fp.fread (64 * 1024) how = some ([], fp)) ∨
    ∃ written, act = .write written ∧ written < s.bridge.buffer.length := by
  obtain ⟨t, hstep, hidle⟩ := h
  obtain ⟨b, hanswer, hbridge⟩ := step_eq_some.mp hstep
  have hstuck := DataStreamBridge.stuck_of_returns (follows_of_answer hanswer)
    ⟨t.bridge, hbridge, hidle⟩
  rcases answer_cases hanswer with ⟨-, rfl, -⟩ | ⟨how, data, rfl, rfl, hfread⟩ |
    ⟨written, rfl, hle, rfl, -⟩
  · cases hstuck
  · obtain ⟨-, rfl⟩ := hstuck
    refine Or.inl ⟨how, _, rfl, ?_, hfread⟩
    rcases State.step_cases hbridge with ⟨-, hact, -⟩ | ⟨_, _, hc, -, -⟩ | ⟨_, _, -, hact, -⟩
    · cases hact
    · exact hc
    · cases hact
  · refine Or.inr ⟨written, rfl, ?_⟩
    by_contra hall
    refine hstuck (List.drop_eq_nil_of_le ?_)
    omega

/-! ## How long a call takes -/

/-- What is left to do in a call: a `read` and a `write` for each byte still in the file, and
the ones for `buffer`. -/
def left (s : Upload) : ℕ :=
  match s.bridge.control with
  | .idle => 0
  | .reading => 2 * s.sin.fp.remaining.length + 1
  | .writing => 2 * s.sin.fp.remaining.length + 2

theorem left_le (s : Upload) : s.left ≤ 2 * s.sin.fp.remaining.length + 2 := by
  unfold left
  split <;> omega

/-- Every step inside a call brings its end nearer. -/
theorem left_lt (hstep : s.step act = some t) (hinside : s.bridge.control ≠ .idle) :
    t.left < s.left := by
  obtain ⟨b, hanswer, hbridge⟩ := step_eq_some.mp hstep
  unfold left
  rcases answer_cases hanswer with ⟨-, rfl, -⟩ | ⟨how, data, -, rfl, hfread⟩ |
    ⟨written, -, hle, rfl, hsin⟩
  · rcases State.step_cases hbridge with ⟨hc, -, -⟩ | ⟨_, _, -, hact, -⟩ | ⟨_, _, -, hact, -⟩
    · exact absurd hc hinside
    · cases hact
    · cases hact
  · rcases State.step_cases hbridge with ⟨-, hact, -⟩ | ⟨_, _, hc, hact, hnext⟩ |
      ⟨_, _, -, hact, -⟩
    · cases hact
    · cases hact
      have hlength := File.remaining_fread hfread
      rw [hc, hnext]
      by_cases hnone : (data.length : ℤ) = 0
      · simp [hnone]
      · simp only [if_neg hnone]
        omega
    · cases hact
  · rcases State.step_cases hbridge with ⟨-, hact, -⟩ | ⟨_, _, -, hact, -⟩ |
      ⟨data, _, hc, hact, hnext⟩
    · cases hact
    · cases hact
    · rw [hc, hnext, hsin]
      by_cases hall : data.isEmpty
      · -- the loop goes on with a `read`
        simp [hall, State.loop]
      · simp [hall]

/-- No step puts bytes back into the file. -/
theorem remaining_step (hstep : s.step act = some t) :
    t.sin.fp.remaining.length ≤ s.sin.fp.remaining.length := by
  obtain ⟨b, hanswer, -⟩ := step_eq_some.mp hstep
  obtain ⟨-, -, -, hremaining⟩ := flow_of_answer hanswer
  rw [hremaining, List.length_append]
  omega

/-- The steps inside a call are at most as many as are left to do. -/
theorem length_le_left {tr : List (Upload × Act)} (h : Run (Fires step) s tr t)
    (hinside : ∀ p ∈ tr, p.1.bridge.control ≠ .idle) : tr.length + t.left ≤ s.left :=
  Run.length_le left (fun _ _ _ hnow => left_lt hnow.1 hnow.2) (h.restrict hinside)

/-! ## Whole runs -/

/-- What has been sent and what is in `buffer` have been taken from the file, in its order. -/
structure Sends (content : Bytes) (tr : List (Upload × Act)) (s : Upload) : Prop where
  sent : flow sends tr ++ s.bridge.buffer = s.sin.fp.consumed
  file : s.sin.fp.consumed ++ s.sin.fp.remaining = content
  ready : DataStreamBridge.Ready s.bridge

variable {content : Bytes} {tr : List (Upload × Act)} {last : Upload}

theorem Sends.step (h : Sends content tr s) (hstep : s.step act = some t) :
    Sends content (tr ++ [(s, act)]) t := by
  obtain ⟨b, hanswer, hbridge⟩ := step_eq_some.mp hstep
  obtain ⟨-, -, hconsumed, hremaining⟩ := flow_of_answer hanswer
  refine ⟨?_, ?_, State.ready_step hbridge⟩
  · calc flow sends (tr ++ [(s, act)]) ++ t.bridge.buffer
        = flow sends tr ++ (s.sends act ++ t.bridge.buffer) := by
          rw [flow_snoc, List.append_assoc]
      _ = flow sends tr ++ s.bridge.buffer ++ s.takes act := by
          rw [relays s act t ⟨hstep, h.ready⟩, List.append_assoc]
      _ = t.sin.fp.consumed := by rw [h.sent, hconsumed]
  · rw [hconsumed, List.append_assoc, ← hremaining, h.file]

theorem sends_of_run (h : Run (Fires step) (init content) tr last) : Sends content tr last := by
  induction h with
  | nil => exact ⟨rfl, rfl, fun hc => by cases hc⟩
  | snoc _ hstep ih => exact ih.step hstep

/-- A `read` that gives nothing has been preceded by sending all that came from the file. -/
theorem Sends.of_nothing {how : FreadEnd} {fp : File} (h : Sends content tr s)
    (hc : s.bridge.control = .reading)
    (hfread : s.sin.fp.fread (64 * 1024) how = some ([], fp)) :
    flow sends tr = content ∨ ∃ k, how = .error k := by
  cases how with
  | error k => exact Or.inr ⟨k, rfl⟩
  | ok =>
      have hempty : s.sin.fp.remaining = [] := by
        have hnone := File.remaining_of_fread_nil (by decide) hfread
        simpa [hnone] using (File.fread_spec hfread).1
      have hsent := h.sent
      have hfile := h.file
      rw [h.ready hc, List.append_nil] at hsent
      rw [hempty, List.append_nil] at hfile
      exact Or.inl (hsent.trans hfile)

/-- **A file is moved to a socket exactly**, in every run of calls of `move_data`, however
`fread` and `send` end: what has been sent, then `buffer`, then what is left of the file, is
the content of the file.  A call returns when the whole file has been sent, when `fread` met an
error, or when `send` did not take all of `buffer`; and there is no call of more than `2 n + 3`
steps where `n` bytes of the file were left when it was made. -/
theorem uploads (h : Run (Fires step) (init content) tr last) :
    flow sends tr ++ last.bridge.buffer ++ last.sin.fp.remaining = content ∧
    (∀ pre p post, tr = pre ++ p :: post → p.1.Returns p.2 →
      flow sends pre = content ∨ (∃ k, p.2 = .read (.error k)) ∨
        ∃ written, p.2 = .write written ∧ written < p.1.bridge.buffer.length) ∧
    ∀ pre p rest post, tr = pre ++ (p :: rest) ++ post → OneCall (p :: rest) →
      (p :: rest).length ≤ 2 * p.1.sin.fp.remaining.length + 3 := by
  refine ⟨?_, ?_, ?_⟩
  · have hlast := sends_of_run h
    rw [hlast.sent, hlast.file]
  · rintro pre p post rfl hreturns
    obtain ⟨s', hpre, hpost⟩ := h.split
    obtain ⟨rfl, -⟩ := Run.cons_iff.mp hpost
    rcases returns_cases hreturns with ⟨how, fp, hact, hc, hfread⟩ | hrefused
    · rcases (sends_of_run hpre).of_nothing hc hfread with hall | ⟨k, rfl⟩
      · exact Or.inl hall
      · exact Or.inr (Or.inl ⟨k, hact⟩)
    · exact Or.inr (Or.inr hrefused)
  · rintro pre p rest post rfl hcall
    obtain ⟨u, hmost, -⟩ := h.split
    obtain ⟨s', -, hcalled⟩ := hmost.split
    obtain ⟨rfl, t, hfirst, hrest⟩ := Run.cons_iff.mp hcalled
    have hinside := length_le_left hrest hcall
    have hbound := left_le t
    have hless := remaining_step hfirst
    rw [List.length_cons]
    omega

/-- Three bytes; the socket takes two of them, and the third in the next call. -/
theorem uploads_example : ∃ tr last, Run (Fires step) (init [1, 2, 3]) tr last ∧
    actions tr = [.moveData, .read .ok, .write 2, .moveData, .write 1, .read .ok] ∧
    last.bridge.control = .idle ∧
    flow sends tr ++ last.bridge.buffer ++ last.sin.fp.remaining = [1, 2, 3] := by
  have hexec : exec step (init [1, 2, 3])
      [.moveData, .read .ok, .write 2, .moveData, .write 1, .read .ok] =
        some ⟨⟨⟨[1, 2, 3], [], true⟩⟩, ⟨.idle, []⟩⟩ := by decide
  obtain ⟨hrun, hacts⟩ := exec_trace _ _ _ _ hexec
  exact ⟨_, _, hrun, hacts, rfl, (uploads hrun).1⟩

end Upload

end Craplib
