import Craplib.Data.Deletion
import Craplib.Stream.FileReader

/-!
# `FileReader::read_file`

`read_file` asks for the length of the file, allocates a `Data` of that size, fills it with one
`fread` and cuts off what was not filled; whatever throws on the way makes the result empty, as
it is for a file that is not there.  The length is an `off_t` that `filesize` casts to `int`.
So it comes out right below 2^31, and may come out negative above, which `new` refuses; but
where the low 32 bits of the length are a small number that is not zero, that many bytes are
all that is read, and they are returned as if they were the file (`whole_or_nothing_iff`).
-/

namespace Craplib

open Effects

/-- The conversion `(int)` of a 64-bit number. -/
@[irreducible] def intOf (n : ℕ) : ℤ := Int.bmod n (2 ^ 32)

/-- The low 32 bits, as a number with a sign. -/
theorem intOf_cases (n : ℕ) : (n % 2 ^ 32 < 2 ^ 31 ∧ intOf n = (n % 2 ^ 32 : ℕ)) ∨
    (2 ^ 31 ≤ n % 2 ^ 32 ∧ intOf n = (n % 2 ^ 32 : ℕ) - 2 ^ 32) := by
  unfold intOf
  rw [Int.bmod_def]
  split <;> omega

theorem intOf_of_lt {n : ℕ} (h : n < 2 ^ 31) : intOf n = n := by
  rcases intOf_cases n with ⟨-, heq⟩ | ⟨hle, -⟩ <;> omega

theorem intOf_lt (n : ℕ) : intOf n < 2 ^ 31 := by
  rcases intOf_cases n with ⟨hlt, heq⟩ | ⟨-, heq⟩ <;> omega

/-- `ftello`. -/
def File.ftello (fp : File) : ℕ := fp.consumed.length

/-- The third argument of `fseeko`. -/
inductive Whence
  | seekSet
  | seekEnd
  deriving DecidableEq, Repr

/-- `fseeko`, to a place that is not behind the end of the file. -/
def File.fseeko (fp : File) (offset : ℕ) (whence : Whence) : File :=
  let content := fp.consumed ++ fp.remaining
  let place := match whence with
    | .seekSet => offset
    | .seekEnd => content.length + offset
  ⟨content.take place, content.drop place, false⟩

/-- `fread` gives no more bytes than it is asked for. -/
theorem File.length_fread {fp fp' : File} {n : ℕ} {how : FreadEnd} {bytes : Bytes}
    (h : fp.fread n how = some (bytes, fp')) : bytes.length ≤ n := by
  cases how with
  | ok =>
      simp only [File.fread, Option.some.injEq, Prod.mk.injEq] at h
      rw [← h.1]
      exact List.length_take_le _ _
  | error k =>
      simp only [File.fread] at h
      split at h
      · simp only [Option.some.injEq, Prod.mk.injEq] at h
        rw [← h.1, List.length_take]
        omega
      · cases h

/-- `FileReader`. -/
structure FileReader where
  fp : File
  deriving DecidableEq, Repr

namespace FileReader

/-- `FileReader(filename)`, for the content of the file, if it is there. -/
def ofFilename : Option Bytes → DataM FileReader
  -- the same `std::exception()` that `check_position` throws
  | none => Eff.throw .outOfRange
  | some content => return ⟨⟨[], content, false⟩⟩

/-- `read(int size)`, on memory that holds `raw`. -/
def read (self : FileReader) (size : ℤ) (raw : Bytes) (how : FreadEnd) :
    DataM (Data × FileReader) := do
  let buffer ← Data.mkSize size raw
  -- nothing throws from here on, so `buffer` goes at the end only
  let buffer ← buffer.lock
  let (bytes, fp) ← .ofReader fun _ => self.fp.fread size.toNat how
  memmove buffer.impl 0 bytes bytes.length
  let bsz := intOf bytes.length
  let data ← Data.mkSlice buffer 0 bsz
  buffer.destroy
  return (data, ⟨fp⟩)

/-- `filesize()`. -/
def filesize (self : FileReader) : ℤ × FileReader :=
  let was := self.fp.ftello
  let fp := self.fp.fseeko 0 .seekEnd
  let result := fp.ftello
  (intOf result, ⟨fp.fseeko was .seekSet⟩)

/-- The `try` block of `read_file`. -/
def tryRead (file : Option Bytes) (raw : Bytes) (how : FreadEnd) : DataM Data := do
  let fr ← ofFilename file
  let (size, fr) := fr.filesize
  let (data, _) ← fr.read size raw how
  return data

/-- `read_file(filename)`: an exception is caught, and `Data()` is returned. -/
def readFile (file : Option Bytes) (raw : Bytes) (how : FreadEnd) : DataM Data := do
  match ← Eff.attempt (tryRead file raw how) with
  | .ok data => return data
  | .error _ => Data.mkDefault

/-! ## What the functions return -/

variable {m : Mem}

/-- The length comes out as an `int`, and the file is at the beginning again. -/
theorem filesize_open (content : Bytes) (eof : Bool) :
    filesize ⟨⟨[], content, eof⟩⟩ = (intOf content.length, ⟨⟨[], content, false⟩⟩) := by
  simp [filesize, File.fseeko, File.ftello]

/-- **`read` returns what `fread` gave.** -/
theorem read_shows (hm : m.Fresh) (fr : FileReader) {fp : File} {size : ℤ} {bytes : Bytes}
    {how : FreadEnd} (raw : Bytes) (hlo : 0 ≤ size) (hhi : size < 2 ^ 31)
    (hfread : fr.fp.fread size.toNat how = some (bytes, fp)) :
    ∃ d m', fr.read size raw how m = some (.ok (d, ⟨fp⟩), m') ∧ Data.shown m' d = some bytes := by
  have hlen : (bytes.length : ℤ) ≤ size := by
    have hle := File.length_fread hfread
    omega
  obtain ⟨b, hbsize, hmk⟩ := Data.mkSize_eq m hlo raw
  obtain ⟨b', hmove, hbsize', hdata⟩ := Data.memmove_top (c := ⟨1, 1⟩) (b := b) hm (hbsize ▸ hlen)
  have hcut := Data.mkSlice_top (m := m) (c := ⟨1, 1⟩) (b := b') bytes.length hlo
  have hdrop : Data.destroy ⟨m.top, 0, size⟩ (m.push ⟨2, 2⟩ b') = some (.ok (), m.push ⟨1, 1⟩ b') :=
    Data.destroy_top rfl (by decide) (by decide)
  refine ⟨⟨m.top, 0, min bytes.length size⟩, m.push ⟨1, 1⟩ b', ?_, ?_⟩
  · refine Eff.bind_eq_some.mpr (Or.inr ⟨_, _, hmk, ?_⟩)
    refine Eff.bind_eq_some.mpr (Or.inr ⟨_, _, Data.lock_top (by decide), ?_⟩)
    refine Eff.bind_ofReader_eq_some.mpr ⟨_, hfread, ?_⟩
    refine Eff.bind_eq_some.mpr (Or.inr ⟨_, _, hmove, ?_⟩)
    rw [intOf_of_lt (by omega)]
    refine Eff.bind_eq_some.mpr (Or.inr ⟨_, _, hcut, ?_⟩)
    exact Eff.bind_eq_some.mpr (Or.inr ⟨_, _, hdrop, rfl⟩)
  · rw [Int.min_eq_left hlen, Data.shown_top hm (by omega) (by omega), Int.toNat_natCast, hdata]

/-- A negative size is refused. -/
theorem read_negative (m : Mem) (fr : FileReader) {size : ℤ} (raw : Bytes) (how : FreadEnd)
    (hsize : size < 0) : fr.read size raw how m = some (.error .badAlloc, m) :=
  Eff.bind_eq_some.mpr (Or.inl ⟨_, Data.mkSize_negative m hsize raw, rfl⟩)

/-- `Data()` shows nothing. -/
theorem mkDefault_shows (hm : m.Fresh) :
    ∃ d m', Data.mkDefault m = some (.ok d, m') ∧ Data.shown m' d = some [] := by
  obtain ⟨b, hbsize, hmk⟩ := Data.mkSize_eq m (Int.le_refl 0) []
  exact ⟨_, _, hmk, by rw [Data.shown_top hm (Int.le_refl 0) (by omega)]; rfl⟩

/-- **`read_file` returns as many bytes as the cast length says**, and none where it is
negative. -/
theorem readFile_shows (hm : m.Fresh) (content raw : Bytes) :
    ∃ d m', readFile (some content) raw .ok m = some (.ok d, m') ∧
      Data.shown m' d = some (content.take (intOf content.length).toNat) := by
  have hopen : ∀ r m', read ⟨⟨[], content, false⟩⟩ (intOf content.length) raw .ok m = some (r, m') →
      tryRead (some content) raw .ok m = some (r.map Prod.fst, m') := by
    intro r m' hr
    refine Eff.bind_eq_some.mpr (Or.inr ⟨_, _, rfl, ?_⟩)
    rw [filesize_open]
    rcases r with e | ⟨d, fr⟩
    · exact Eff.bind_eq_some.mpr (Or.inl ⟨e, hr, rfl⟩)
    · exact Eff.bind_eq_some.mpr (Or.inr ⟨_, _, hr, rfl⟩)
  by_cases hsize : 0 ≤ intOf content.length
  · obtain ⟨fp, hfread⟩ : ∃ fp, File.fread ⟨[], content, false⟩ (intOf content.length).toNat .ok =
        some (content.take (intOf content.length).toNat, fp) := ⟨_, rfl⟩
    obtain ⟨d, m', hread, hshown⟩ :=
      read_shows hm ⟨⟨[], content, false⟩⟩ raw hsize (intOf_lt _) hfread
    refine ⟨d, m', ?_, hshown⟩
    have htry := Eff.attempt_eq_some.mpr ⟨_, hopen _ _ hread, rfl⟩
    exact Eff.bind_eq_some.mpr (Or.inr ⟨_, _, htry, rfl⟩)
  · have hneg : intOf content.length < 0 := by omega
    have hread := read_negative m ⟨⟨[], content, false⟩⟩ raw .ok hneg
    obtain ⟨d, m', hmk, hshown⟩ := mkDefault_shows hm
    refine ⟨d, m', ?_, ?_⟩
    · have htry := Eff.attempt_eq_some.mpr ⟨_, hopen _ _ hread, rfl⟩
      exact Eff.bind_eq_some.mpr (Or.inr ⟨_, _, htry, hmk⟩)
    · rw [hshown, Int.toNat_of_nonpos (by omega), List.take_zero]

/-- **`read_file` returns the whole file or nothing** exactly where the length of the file is
below 2^31, is a multiple of 2^32, or has low 32 bits that are a negative `int`; what it returns
is the beginning of the file in any case. -/
theorem whole_or_nothing_iff (hm : m.Fresh) (content raw : Bytes) :
    ∃ d m' data, readFile (some content) raw .ok m = some (.ok d, m') ∧
      Data.shown m' d = some data ∧ data <+: content ∧
      ((data = content ∨ data = []) ↔ content.length < 2 ^ 31 ∨ content.length % 2 ^ 32 = 0 ∨
        2 ^ 31 ≤ content.length % 2 ^ 32) := by
  obtain ⟨d, m', hread, hshown⟩ := readFile_shows hm content raw
  refine ⟨d, m', _, hread, hshown, List.take_prefix _ _, ?_⟩
  rw [List.take_eq_self_iff, List.take_eq_nil_iff, ← List.length_eq_zero_iff]
  rcases intOf_cases content.length with ⟨hlow, hint⟩ | ⟨hhigh, hint⟩
  · rw [hint, Int.toNat_natCast]
    omega
  · -- `new` refuses the size
    rw [Int.toNat_of_nonpos (by omega)]
    omega

/-- A file of three bytes, read in a program that has deleted a buffer before. -/
theorem whole_or_nothing_iff_example : ∃ tr s,
    Machine.Run (Machine.Fires Program.step) Program.init tr s ∧
    Machine.actions tr = [.mkBytes 1 [5], .destroy 0] ∧ s.mem.heap.deleted = [1] ∧
    ∃ d m' data, readFile (some [1, 2, 3]) [] .ok s.mem = some (.ok d, m') ∧
      Data.shown m' d = some data ∧ (data = [1, 2, 3] ∨ data = []) := by
  let acts : List DataOp := [.mkBytes 1 [5], .destroy 0]
  let s := (Machine.exec Program.step Program.init acts).get (by decide)
  have hs : Machine.exec Program.step Program.init acts = some s := (Option.some_get _).symm
  obtain ⟨hrun, hacts⟩ := Machine.exec_trace _ _ _ _ hs
  obtain ⟨d, m', data, hread, hshown, -, hiff⟩ :=
    whole_or_nothing_iff (Program.fresh_of_run hrun) [1, 2, 3] []
  exact ⟨_, s, hrun, hacts, by decide, d, m', data, hread, hshown, hiff.mpr (Or.inl (by decide))⟩

/-- Of 2^32 + 1 bytes the first one is returned. -/
theorem readFile_long_file :
    let content : Bytes := List.replicate (2 ^ 32 + 1) 7
    ∃ d m', readFile (some content) [] .ok Mem.init = some (.ok d, m') ∧
      Data.shown m' d = some [7] ∧ ¬ ([7] = content ∨ ([7] : Bytes) = []) := by
  intro content
  have hlen : content.length = 2 ^ 32 + 1 := List.length_replicate
  have hint : intOf content.length = 1 := by
    rcases intOf_cases content.length with ⟨-, heq⟩ | ⟨hle, -⟩ <;> omega
  obtain ⟨d, m', hread, hshown⟩ := readFile_shows (m := Mem.init) (by decide) content []
  refine ⟨d, m', hread, ?_, ?_⟩
  · rw [hshown, hint, List.take_replicate]
    rfl
  · rintro (h | h)
    · have hone := congrArg List.length h
      rw [hlen] at hone
      cases hone
    · cases h

end FileReader

end Craplib
