import Craplib.Lib.Conservation
import Craplib.Stream.Contract

/-!
# `AsyncFileReader`

`read` takes a chunk from the file into `buffer` and sets the timer; `onTimer` hands the chunk
to the delegate, which may call `read` again before it returns.  A `read` while a chunk waits
does nothing.  An empty chunk is the end of the file, when `feof` says so, or an error.

What a run does to the file and to the reader is a sequence of `read`s and of calls of
`onTimer`: both callbacks are the last thing that `onTimer` does, so a `read` that is made in
one of them comes next.  `delivers_file` is what holds in every run.
-/

namespace Craplib

open Machine

/-! ## The file -/

/-- An open `FILE`: the bytes read so far, the ones behind them, and what `feof` gives. -/
structure File where
  consumed : Bytes
  remaining : Bytes
  eof : Bool
  deriving DecidableEq, Repr

/-- How a call of `fread` ends: well, or with an I/O error behind `k` bytes. -/
inductive FreadEnd
  | ok
  | error (k : ℕ)
  deriving DecidableEq, Repr

/-- `fread` of `n` bytes: the bytes it gives, and the file afterwards. -/
def File.fread (fp : File) (n : ℕ) : FreadEnd → Option (Bytes × File)
  | .ok => some (fp.remaining.take n, { fp with
      consumed := fp.consumed ++ fp.remaining.take n
      remaining := fp.remaining.drop n
      eof := fp.eof || fp.remaining.length < n })
  | .error k =>
    if k < n ∧ k ≤ fp.remaining.length then
      some (fp.remaining.take k, { fp with
        consumed := fp.consumed ++ fp.remaining.take k
        remaining := fp.remaining.drop k })
    else none

/-- **What `fread` does**: it moves bytes from the front of those that remain; the end of the
file is met only when none are left, and no bytes at all mean that it is, or an error. -/
theorem File.fread_spec {fp fp' : File} {n : ℕ} {how : FreadEnd} {bytes : Bytes}
    (h : fp.fread n how = some (bytes, fp')) :
    fp.remaining = bytes ++ fp'.remaining ∧ fp'.consumed = fp.consumed ++ bytes ∧
      (fp'.eof = true → fp.eof = true ∨ fp'.remaining = []) ∧
      (0 < n → bytes = [] → fp'.eof = true ∨ ∃ k, how = .error k) := by
  cases how with
  | ok =>
      simp only [File.fread, Option.some.injEq, Prod.mk.injEq] at h
      obtain ⟨rfl, rfl⟩ := h
      refine ⟨(List.take_append_drop _ _).symm, rfl, fun heof => ?_, fun hn hnone => Or.inl ?_⟩
      · simp only [Bool.or_eq_true, decide_eq_true_eq] at heof
        exact heof.imp_right fun hshort => List.drop_eq_nil_of_le (Nat.le_of_lt hshort)
      · have hempty : fp.remaining = [] := by simpa [Nat.ne_of_gt hn] using hnone
        simp [hempty, hn]
  | error k =>
      simp only [File.fread] at h
      split at h
      · simp only [Option.some.injEq, Prod.mk.injEq] at h
        obtain ⟨rfl, rfl⟩ := h
        exact ⟨(List.take_append_drop _ _).symm, rfl, Or.inl, fun _ _ => Or.inr ⟨k, rfl⟩⟩
      · simp at h

/-! ## The reader -/

/-- `AsyncFileReader`; `timer` tells whether its timer is set. -/
structure AsyncFileReader where
  fp : File
  buffer : Bytes
  timer : Bool
  deriving DecidableEq, Repr

/-- The calls of its delegate. -/
inductive Callback
  | onChunk (data : Bytes)
  | onError
  | onEndOfFile
  deriving DecidableEq, Repr

namespace AsyncFileReader

/-- A reader for a file with this content. -/
def init (content : Bytes) : AsyncFileReader := ⟨⟨[], content, false⟩, [], false⟩

/-- `read(int size)`: `fread` fills the beginning of a `Data` of that size, whose other bytes
are cut off. -/
def read (self : AsyncFileReader) (size : ℕ) (how : FreadEnd) : Option AsyncFileReader :=
  if self.buffer ≠ [] then some self
  else do
    let (bytes, fp) ← self.fp.fread size how
    let filled : Bytes := bytes ++ List.replicate (size - bytes.length) 0
    match filled.slice 0 bytes.length with
    | .ok buffer => some { fp, buffer, timer := true }
    | .error _ => none

/-- `onTimer`: the call that it makes, and the reader when it is made. -/
def onTimer (self : AsyncFileReader) : Callback × AsyncFileReader :=
  if self.buffer = [] then
    if self.fp.eof then (.onEndOfFile, self) else (.onError, self)
  else (.onChunk self.buffer, { self with buffer := [] })

/-- What happens to a reader. -/
inductive Action
  | read (size : ℕ) (how : FreadEnd)
  /-- The run loop takes the timer out of its deque and calls `onTimer`. -/
  | fire
  deriving DecidableEq, Repr

/-- One step.  A `read` has a positive size; the timer fires when it is set. -/
def step (self : AsyncFileReader) : Action → Option AsyncFileReader
  | .read size how => if size = 0 then none else self.read size how
  | .fire => if self.timer then some { self with timer := false }.onTimer.2 else none

/-- The bytes that a step hands to `onChunk`. -/
def delivered (self : AsyncFileReader) : Action → List Byte
  | .read _ _ => []
  | .fire =>
    match self.onTimer.1 with
    | .onChunk data => data
    | _ => []

/-- The bytes that a step takes from the file. -/
def taken (self : AsyncFileReader) : Action → List Byte
  | .read size how =>
    if self.buffer ≠ [] then [] else ((self.fp.fread size how).map Prod.fst).getD []
  | .fire => []

/-- The step meets an I/O error. -/
def MeetsError (self : AsyncFileReader) (a : Action) : Prop :=
  self.buffer = [] ∧ ∃ size k, a = .read size (.error k)

variable {self s t : AsyncFileReader} {a : Action}

/-- A `read` takes the next chunk from the file, unless one waits. -/
theorem read_cases {size : ℕ} {how : FreadEnd} (h : self.read size how = some t) :
    (self.buffer ≠ [] ∧ t = self) ∨
      (self.buffer = [] ∧ ∃ bytes fp, self.fp.fread size how = some (bytes, fp) ∧
        t = ⟨fp, bytes, true⟩) := by
  unfold read at h
  by_cases hbuffer : self.buffer = []
  · rw [if_neg (not_not.mpr hbuffer)] at h
    obtain ⟨⟨bytes, fp⟩, hfread, hrest⟩ := Option.bind_eq_some_iff.mp h
    have hcut : Bytes.slice (bytes ++ List.replicate (size - bytes.length) 0) 0 bytes.length =
        .ok bytes := by
      rw [Bytes.slice_front (by rw [List.length_append]; omega), Int.toNat_natCast, List.take_left]
    dsimp only at hrest
    rw [hcut] at hrest
    exact Or.inr ⟨hbuffer, bytes, fp, hfread, (Option.some.inj hrest).symm⟩
  · rw [if_pos hbuffer] at h
    exact Or.inl ⟨hbuffer, (Option.some.inj h).symm⟩

/-- `onTimer` empties the buffer, and hands what was in it to the delegate. -/
theorem onTimer_spec (self : AsyncFileReader) :
    self.onTimer.2 = { self with buffer := [] } ∧ self.delivered .fire = self.buffer := by
  obtain ⟨fp, buffer, timer⟩ := self
  unfold delivered onTimer
  by_cases hbuffer : buffer = []
  · subst hbuffer
    cases fp.eof <;> exact ⟨rfl, rfl⟩
  · simp only [if_neg hbuffer, and_self]

/-- Which calls `onTimer` makes for an empty chunk. -/
theorem onTimer_empty :
    (self.onTimer.1 = .onEndOfFile → self.buffer = [] ∧ self.fp.eof = true) ∧
      (self.onTimer.1 = .onError → self.buffer = [] ∧ ¬ self.fp.eof = true) := by
  unfold onTimer
  by_cases hbuffer : self.buffer = []
  · by_cases hend : self.fp.eof = true
    · simp [hbuffer, hend]
    · simp [hbuffer, hend]
  · simp [hbuffer]

theorem step_fire (h : self.step .fire = some t) :
    self.timer = true ∧ t = { self with timer := false, buffer := [] } := by
  simp only [step] at h
  split at h
  · next htimer => exact ⟨htimer, (Option.some.inj h).symm.trans (onTimer_spec _).1⟩
  · simp at h

/-! ## What holds along a run -/

/-- The chunks so far and the one in `buffer` are what has been taken from the file; the end is
met only when nothing is left; and a timer that is set for an empty chunk tells of the end or
of an error. -/
structure Delivers (content : Bytes) (tr : List (AsyncFileReader × Action))
    (s : AsyncFileReader) : Prop where
  chunks : flow delivered tr ++ s.buffer = s.fp.consumed
  file : s.fp.consumed ++ s.fp.remaining = content
  atEnd : s.fp.eof = true → s.fp.remaining = []
  empty : s.timer = true → s.buffer = [] → s.fp.eof = true ∨ ∃ p ∈ tr, MeetsError p.1 p.2

variable {content : Bytes} {tr : List (AsyncFileReader × Action)} {last : AsyncFileReader}

theorem Delivers.step (h : Delivers content tr s) (hstep : s.step a = some t) :
    Delivers content (tr ++ [(s, a)]) t := by
  cases a with
  | fire =>
      obtain ⟨htimer, rfl⟩ := step_fire hstep
      refine ⟨?_, h.file, h.atEnd, fun hset => by cases hset⟩
      rw [flow_snoc, (onTimer_spec s).2, List.append_nil]
      exact h.chunks
  | read size how =>
      have hflow : flow delivered (tr ++ [(s, Action.read size how)]) = flow delivered tr := by
        rw [flow_snoc, delivered, List.append_nil]
      simp only [AsyncFileReader.step] at hstep
      split at hstep
      · simp at hstep
      next hsize =>
        rcases read_cases hstep with ⟨hwaits, rfl⟩ | ⟨hbuffer, bytes, fp, hfread, rfl⟩
        · refine ⟨hflow ▸ h.chunks, h.file, h.atEnd, fun _ hempty => absurd hempty hwaits⟩
        · obtain ⟨hremaining, hconsumed, heof, hnone⟩ := File.fread_spec hfread
          have hchunks := h.chunks
          rw [hbuffer, List.append_nil] at hchunks
          refine ⟨?_, ?_, fun hend => ?_, fun _ hempty => ?_⟩
          · rw [hflow, hchunks, hconsumed]
          · rw [hconsumed, List.append_assoc, ← hremaining, h.file]
          · -- an end that was met before leaves nothing to read
            refine (heof hend).elim (fun hbefore => ?_) id
            have hall := h.atEnd hbefore
            rw [hremaining] at hall
            exact (List.append_eq_nil_iff.mp hall).2
          · rcases hnone (Nat.pos_of_ne_zero hsize) hempty with hend | ⟨k, rfl⟩
            · exact Or.inl hend
            · exact Or.inr ⟨(s, .read size (.error k)), by simp, hbuffer, size, k, rfl⟩

theorem delivers (h : Run (Fires step) (init content) tr last) : Delivers content tr last := by
  induction h with
  | nil => exact ⟨rfl, rfl, fun hend => absurd hend Bool.false_ne_true,
      fun hset => absurd hset Bool.false_ne_true⟩
  | snoc _ hstep ih => exact ih.step hstep

/-- **The file is delivered exactly**, in every run: the chunks that the delegate was handed and
the one in `buffer` are what has been taken from the file, which is the front of it; it is told
of the end only when it has been handed the whole file, and of an error only after one. -/
theorem delivers_file (h : Run (Fires step) (init content) tr last) :
    flow delivered tr ++ last.buffer = last.fp.consumed ∧
    last.fp.consumed ++ last.fp.remaining = content ∧
    ∀ pre s post, tr = pre ++ (s, .fire) :: post →
      (s.onTimer.1 = .onEndOfFile → flow delivered pre = content) ∧
      (s.onTimer.1 = .onError → ∃ p ∈ pre, MeetsError p.1 p.2) := by
  have hlast := delivers h
  refine ⟨hlast.chunks, hlast.file, ?_⟩
  rintro pre s post rfl
  obtain ⟨s', hpre, hpost⟩ := h.split
  obtain ⟨rfl, t, hstep, -⟩ := Run.cons_iff.mp hpost
  have hnow := delivers hpre
  obtain ⟨htimer, -⟩ := step_fire hstep
  have hchunks := hnow.chunks
  constructor
  · intro hcall
    obtain ⟨hbuffer, hend⟩ := onTimer_empty.1 hcall
    have hfile := hnow.file
    rw [hbuffer, List.append_nil] at hchunks
    rwa [hnow.atEnd hend, List.append_nil, ← hchunks] at hfile
  · intro hcall
    obtain ⟨hbuffer, hmore⟩ := onTimer_empty.2 hcall
    exact (hnow.empty htimer hbuffer).resolve_left hmore

/-- A file of three bytes, read by twos: the second `read` comes while a chunk waits, and the
last one meets the end. -/
theorem delivers_file_of_three :
    ∃ tr last, Run (Fires step) (init [1, 2, 3]) tr last ∧
      flow delivered tr ++ last.buffer = last.fp.consumed ∧ flow delivered tr = [1, 2, 3] := by
  let as : List Action := [.read 2 .ok, .read 2 .ok, .fire, .read 2 .ok, .fire, .read 2 .ok, .fire]
  let last : AsyncFileReader := (exec step (init [1, 2, 3]) as).get (by decide)
  have hlast : exec step (init [1, 2, 3]) as = some last := (Option.some_get _).symm
  obtain ⟨hrun, -⟩ := exec_trace _ _ _ _ hlast
  exact ⟨_, _, hrun, (delivers_file hrun).1, by decide⟩

end AsyncFileReader

end Craplib
