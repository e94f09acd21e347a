import Mathlib.Algebra.Group.Int.Defs
import Mathlib.Data.List.Basic
import Mathlib.Tactic.Common
import Mathlib.Order.Nat

/-!
# Reading from a `std::stringstream`

What `HTTPRequest.cpp` uses of the input side of a string stream: the two
extractions `>>` and `std::getline`, on the classic locale.  A stream is what is
left to read and the two error bits; every extraction starts with a `sentry`,
which gives up when either bit is set and, unless told otherwise, skips white
space first.

A failed extraction leaves its target alone when the sentry gave up; `>>` into an
`int` that finds no number stores zero.
-/

namespace Craplib

/-- `std::string` -/
abbrev Str := List UInt8

/-- `isspace` of the classic locale. -/
def isSpace (c : UInt8) : Bool := (9 ≤ c && c ≤ 13) || c == 32

/-- `isdigit`. -/
def isDigit (c : UInt8) : Bool := 48 ≤ c && c ≤ 57

/-- `'\n'` -/
def LF : UInt8 := 10

/-- `'\r'` -/
def CR : UInt8 := 13

/-- `' '` -/
def SP : UInt8 := 32

/-- `'\t'` -/
def HT : UInt8 := 9

/-- The input side of a string stream. -/
structure IStream where
  rest : Str
  eofbit : Bool
  failbit : Bool
  deriving DecidableEq, Repr

namespace IStream

/-- `std::stringstream ss; ss << line;`. -/
def ofStr (line : Str) : IStream := ⟨line, false, false⟩

/-- `good()`. -/
def good (s : IStream) : Bool := !s.eofbit && !s.failbit

/-- The sentry object: the stream after its constructor, and whether input can
start. -/
def sentry (s : IStream) (noskipws : Bool) : IStream × Bool :=
  if s.good then
    if noskipws then (s, true)
    else
      let rest := s.rest.dropWhile isSpace
      if rest = [] then (⟨rest, true, true⟩, false) else (⟨rest, s.eofbit, s.failbit⟩, true)
  else
    ({ s with failbit := true }, false)

/-- `s >> str`. -/
def extractStr (s : IStream) (str : Str) : IStream × Str :=
  match s.sentry false with
  | (s, false) => (s, str)
  | (s, true) =>
    let rest := s.rest.dropWhile (!isSpace ·)
    (⟨rest, rest.isEmpty, s.failbit⟩, s.rest.takeWhile (!isSpace ·))

/-- `std::getline(s, str, '\n')`. -/
def getline (s : IStream) (str : Str) : IStream × Str :=
  match s.sentry true with
  | (s, false) => (s, str)
  | (s, true) =>
    let line := s.rest.takeWhile (· != LF)
    match s.rest.dropWhile (· != LF) with
    | [] => (⟨[], true, line.isEmpty⟩, line)
    | _ :: rest => (⟨rest, s.eofbit, s.failbit⟩, line)

/-- The value of a sequence of decimal digits. -/
def digitsValue (digits : Str) : ℤ := digits.foldl (fun v c => 10 * v + (c.toNat - 48)) 0

/-- `s >> code` for an `int`. -/
def extractInt (s : IStream) (code : ℤ) : IStream × ℤ :=
  match s.sentry false with
  | (s, false) => (s, code)
  | (s, true) =>
    let neg := s.rest.head? = some 45
    let body := if neg ∨ s.rest.head? = some 43 then s.rest.tail else s.rest
    let digits := body.takeWhile isDigit
    let rest := body.dropWhile isDigit
    let v := if neg then -digitsValue digits else digitsValue digits
    if digits = [] then (⟨rest, rest.isEmpty, true⟩, 0)
    else if v < -2 ^ 31 then (⟨rest, rest.isEmpty, true⟩, -2 ^ 31)
    else if 2 ^ 31 ≤ v then (⟨rest, rest.isEmpty, true⟩, 2 ^ 31 - 1)
    else (⟨rest, rest.isEmpty, s.failbit⟩, v)

end IStream

/-! ## Words and the rest of a line -/

section Extraction

variable {w rest : Str}

theorem takeWhile_append_of_all {p : UInt8 → Bool} (hw : ∀ c ∈ w, p c = true)
    (hrest : ∀ c, rest.head? = some c → p c = false) :
    (w ++ rest).takeWhile p = w ∧ (w ++ rest).dropWhile p = rest := by
  induction w with
  | nil =>
      cases rest with
      | nil => simp
      | cons c rest => simp [hrest c rfl]
  | cons c w ih =>
      obtain ⟨htake, hdrop⟩ := ih fun x hx => hw x (List.mem_cons_of_mem _ hx)
      have hc := hw c (by simp)
      simp [hc, htake, hdrop]

namespace IStream

/-- White space before a word is skipped. -/
theorem extractStr_skip {c : UInt8} (hc : isSpace c = true) (s str : Str) :
    (ofStr (c :: s)).extractStr str = (ofStr s).extractStr str := by
  unfold extractStr sentry ofStr
  rw [List.dropWhile_cons_of_pos hc]
  rfl

/-- `>>` reads a word and stops before the white space behind it. -/
theorem extractStr_word (hne : w ≠ []) (hw : ∀ c ∈ w, isSpace c = false)
    (hrest : ∀ c, rest.head? = some c → isSpace c = true) (str : Str) :
    (ofStr (w ++ rest)).extractStr str = (⟨rest, rest.isEmpty, false⟩, w) := by
  obtain ⟨htake, hdrop⟩ : (w ++ rest).takeWhile (!isSpace ·) = w ∧
      (w ++ rest).dropWhile (!isSpace ·) = rest :=
    takeWhile_append_of_all (fun x hx => by simp [hw x hx]) fun x hx => by simp [hrest x hx]
  have hskip : (w ++ rest).dropWhile isSpace = w ++ rest := by
    obtain ⟨c, w', rfl⟩ := List.exists_cons_of_ne_nil hne
    have hc : isSpace c = false := hw c (by simp)
    simp [hc]
  have hsentry : (ofStr (w ++ rest)).sentry false = (ofStr (w ++ rest), true) := by
    simp [sentry, ofStr, good, hskip, hne]
  unfold extractStr
  rw [hsentry]
  simp only [ofStr, htake, hdrop]

/-- A word followed by white space leaves a stream that can be read on. -/
theorem extractStr_word_cons {c : UInt8} (hne : w ≠ []) (hw : ∀ c ∈ w, isSpace c = false)
    (hc : isSpace c = true) (str : Str) :
    (ofStr (w ++ c :: rest)).extractStr str = (ofStr (c :: rest), w) := by
  refine extractStr_word hne hw (fun x hx => ?_) str
  obtain rfl : c = x := by simpa using hx
  exact hc

/-- `getline` reads the rest of a line that has no line feed. -/
theorem getline_rest (hne : w ≠ []) (hw : LF ∉ w) (str : Str) :
    (ofStr w).getline str = (⟨[], true, false⟩, w) := by
  obtain ⟨htake, hdrop⟩ : (w ++ []).takeWhile (· != LF) = w ∧ (w ++ []).dropWhile (· != LF) = [] :=
    takeWhile_append_of_all (fun x hx => by
      have : x ≠ LF := fun h => hw (h ▸ hx)
      simpa using this) (by simp)
  rw [List.append_nil] at htake hdrop
  have hempty : w.isEmpty = false := by simpa using hne
  simp [getline, sentry, ofStr, good, htake, hdrop, hempty]

end IStream

end Extraction

end Craplib
