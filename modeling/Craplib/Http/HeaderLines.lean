import Mathlib.Data.List.TakeWhile
import Craplib.Http.HeadersParser

/-!
# The grammar of a header line

A header line is a name, a colon, spaces or tabs, and a value (`grammarEntry`).
`parseLine` does not look for the colon: it takes the first word of the line and drops its
last byte, and takes the rest of the line and drops its first one (`lineEntry`).

`lineEntry_eq_iff` says for which lines the two come to the same: those with exactly one
space or tab behind the colon, and those without a colon that have nothing behind their
first word.
-/

namespace Craplib

/-- `':'` -/
def COLON : UInt8 := 58

/-- A space or a tab. -/
def isBlank (c : UInt8) : Bool := c == SP || c == HT

/-- A byte of a header name: neither white space nor a colon. -/
def isNameByte (c : UInt8) : Bool := !isSpace c && c != COLON

/-- What a header line says: `name ':'`, any spaces and tabs, and the value. -/
def grammarEntry (line : Str) : Option (Str × Str) :=
  match line.takeWhile isNameByte, line.dropWhile isNameByte with
  | c :: name, d :: value =>
      if d = COLON then some (c :: name, value.dropWhile isBlank) else none
  | _, _ => none

/-- The first word of a line. -/
def firstWord (line : Str) : Str := (line.dropWhile isSpace).takeWhile (!isSpace ·)

/-- What follows it. -/
def behindWord (line : Str) : Str := (line.dropWhile isSpace).dropWhile (!isSpace ·)

/-- What `parseLine` enters for a header line: nothing when there is nothing behind the
first word; otherwise the word without its last byte, and the rest without its first. -/
def lineEntry (line : Str) : Option (Str × Str) :=
  if behindWord line = [] then none else some ((firstWord line).dropLast, (behindWord line).tail)

/-- The lines that `parseLine` reads as the grammar does. -/
def Regular (line : Str) : Prop :=
  (∃ name c value, name ≠ [] ∧ (∀ b ∈ name, isNameByte b = true) ∧ isBlank c = true ∧
      (∀ b, value.head? = some b → isBlank b = false) ∧ line = name ++ COLON :: c :: value) ∨
    (grammarEntry line = none ∧ behindWord line = [])

/-! ## What the grammar accepts -/

variable {line : Str}

theorem isBlank_iff {c : UInt8} : isBlank c = true ↔ c = SP ∨ c = HT := by
  simp [isBlank]

theorem isSpace_of_isBlank {c : UInt8} (h : isBlank c = true) : isSpace c = true := by
  rcases isBlank_iff.mp h with rfl | rfl <;> decide

/-- What begins behind a `dropWhile`. -/
theorem head?_dropWhile {p : UInt8 → Bool} {s : Str} {b : UInt8}
    (h : (s.dropWhile p).head? = some b) : p b = false := by
  have hnot := List.head?_dropWhile_not p s
  rw [h] at hnot
  exact hnot

/-- A name is what the grammar takes for it. -/
theorem split_name {name : Str} (rest : Str) (hname : ∀ b ∈ name, isNameByte b = true) :
    (name ++ COLON :: rest).takeWhile isNameByte = name ∧
      (name ++ COLON :: rest).dropWhile isNameByte = COLON :: rest :=
  takeWhile_append_of_all hname fun b hb => by
    obtain rfl : COLON = b := by simpa using hb
    decide

theorem grammarEntry_append {name rest : Str} (hne : name ≠ [])
    (hname : ∀ b ∈ name, isNameByte b = true) :
    grammarEntry (name ++ COLON :: rest) = some (name, rest.dropWhile isBlank) := by
  obtain ⟨htake, hdrop⟩ := split_name rest hname
  obtain ⟨c, name', rfl⟩ := List.exists_cons_of_ne_nil hne
  unfold grammarEntry
  rw [htake, hdrop]
  exact if_pos rfl

/-- A line of the form has a name and a colon. -/
theorem exists_name {e : Str × Str} (h : grammarEntry line = some e) :
    e.1 ≠ [] ∧ (∀ b ∈ e.1, isNameByte b = true) ∧
      ∃ rest, line = e.1 ++ COLON :: rest ∧ e.2 = rest.dropWhile isBlank := by
  unfold grammarEntry at h
  split at h
  · next c name d rest htake hdrop =>
      split_ifs at h with hcolon
      subst hcolon
      cases h
      refine ⟨List.cons_ne_nil _ _, fun b hb => ?_, rest, ?_, rfl⟩
      · exact List.mem_takeWhile_imp (htake ▸ hb)
      · rw [← htake, ← hdrop, List.takeWhile_append_dropWhile]
  · cases h

/-- `grammarEntry` is the grammar: it gives a name and a value exactly for the lines of the
form. -/
theorem grammarEntry_eq_some {name value : Str} : grammarEntry line = some (name, value) ↔
    name ≠ [] ∧ (∀ b ∈ name, isNameByte b = true) ∧
      (∀ b, value.head? = some b → isBlank b = false) ∧
      ∃ blanks, (∀ b ∈ blanks, isBlank b = true) ∧ line = name ++ COLON :: (blanks ++ value) := by
  constructor
  · intro h
    obtain ⟨hne, hname, rest, rfl, rfl⟩ := exists_name h
    refine ⟨hne, hname, fun b => head?_dropWhile, rest.takeWhile isBlank,
      fun b => List.mem_takeWhile_imp, ?_⟩
    rw [List.takeWhile_append_dropWhile]
  · rintro ⟨hne, hname, hvalue, blanks, hblanks, rfl⟩
    rw [grammarEntry_append hne hname, (takeWhile_append_of_all hblanks hvalue).2]

/-- A line of the form begins with its first word. -/
theorem words_of_name {name : Str} (rest : Str) (hne : name ≠ [])
    (hname : ∀ b ∈ name, isNameByte b = true) :
    firstWord (name ++ COLON :: rest) = name ++ COLON :: rest.takeWhile (!isSpace ·) ∧
      behindWord (name ++ COLON :: rest) = rest.dropWhile (!isSpace ·) := by
  have hword : ∀ b ∈ name, (!isSpace b) = true := by
    intro b hb
    have hbyte := hname b hb
    rw [isNameByte, Bool.and_eq_true] at hbyte
    exact hbyte.1
  have hskip : (name ++ COLON :: rest).dropWhile isSpace = name ++ COLON :: rest := by
    obtain ⟨c, name', rfl⟩ := List.exists_cons_of_ne_nil hne
    have hc := hword c List.mem_cons_self
    rw [Bool.not_eq_true'] at hc
    rw [List.cons_append, List.dropWhile_cons_of_neg (by simp [hc])]
  have hcolon : isSpace COLON = false := by decide
  unfold firstWord behindWord
  rw [hskip, List.takeWhile_append_of_pos hword, List.dropWhile_append_of_pos hword]
  simp [hcolon]

/-- On a line of the form the parser agrees when one blank, and no more, follows the
colon. -/
theorem lineEntry_of_name {name : Str} (rest : Str) (hne : name ≠ [])
    (hname : ∀ b ∈ name, isNameByte b = true) :
    lineEntry (name ++ COLON :: rest) = some (name, rest.dropWhile isBlank) ↔
      ∃ c value, isBlank c = true ∧ (∀ b, value.head? = some b → isBlank b = false) ∧
        rest = c :: value := by
  obtain ⟨hfirst, hbehind⟩ := words_of_name rest hne hname
  unfold lineEntry
  rw [hfirst, hbehind]
  constructor
  · intro h
    split_ifs at h with hnil
    obtain ⟨hkey, hvalue⟩ := Prod.mk.inj (Option.some.inj h)
    have hword : rest.takeWhile (!isSpace ·) = [] := by
      have hlen := congrArg List.length hkey
      rw [List.length_dropLast, List.length_append, List.length_cons] at hlen
      exact List.eq_nil_of_length_eq_zero (by omega)
    have hall : rest.dropWhile (!isSpace ·) = rest := by
      have hsplit := List.takeWhile_append_dropWhile (p := (!isSpace ·)) (l := rest)
      rwa [hword] at hsplit
    rw [hall] at hnil hvalue
    obtain ⟨c, value, rfl⟩ := List.exists_cons_of_ne_nil hnil
    rw [List.tail_cons] at hvalue
    by_cases hc : isBlank c = true
    · rw [List.dropWhile_cons_of_pos hc] at hvalue
      refine ⟨c, value, hc, fun b hb => ?_, rfl⟩
      rw [hvalue] at hb
      exact head?_dropWhile hb
    · rw [List.dropWhile_cons_of_neg hc] at hvalue
      exact absurd hvalue.symm (List.cons_ne_self _ _)
  · rintro ⟨c, value, hc, hvalue, rfl⟩
    have hspace := isSpace_of_isBlank hc
    have hkept : value.dropWhile isBlank = value := by
      cases value with
      | nil => rfl
      | cons b value =>
          rw [List.dropWhile_cons_of_neg]
          simp [hvalue b rfl]
    simp [hspace, hc, hkept]

/-- **Where the parser and the grammar agree** on a line. -/
theorem lineEntry_eq_iff : lineEntry line = grammarEntry line ↔ Regular line := by
  cases hgrammar : grammarEntry line with
  | none =>
      have hno : ¬ ∃ name c value, name ≠ [] ∧ (∀ b ∈ name, isNameByte b = true) ∧
          isBlank c = true ∧ (∀ b, value.head? = some b → isBlank b = false) ∧
          line = name ++ COLON :: c :: value := by
        rintro ⟨name, c, value, hne, hname, -, -, rfl⟩
        rw [grammarEntry_append hne hname] at hgrammar
        cases hgrammar
      unfold Regular lineEntry
      rw [hgrammar, or_iff_right hno, and_iff_right rfl]
      split_ifs with hnil
      · exact iff_of_true rfl hnil
      · exact iff_of_false nofun hnil
  | some e =>
      obtain ⟨hne, hname, rest, hline, hvalue⟩ := exists_name hgrammar
      have hiff := lineEntry_of_name rest hne hname
      rw [← hline, ← hvalue] at hiff
      rw [hiff]
      unfold Regular
      rw [hgrammar]
      constructor
      · rintro ⟨c, value, hc, hval, rfl⟩
        exact Or.inl ⟨e.1, c, value, hne, hname, hc, hval, hline⟩
      · rintro (⟨name, c, value, hne', hname', hc, hval, hline'⟩ | ⟨hnone, -⟩)
        · -- a line has one name
          obtain ⟨-, hrest⟩ := split_name rest hname
          obtain ⟨-, hrest'⟩ := split_name (c :: value) hname'
          rw [← hline, hline', hrest'] at hrest
          exact ⟨c, value, hc, hval, ((List.cons.inj hrest).2).symm⟩
        · cases hnone

/-! ## `parseLine` -/

/-- The first word of a line, and what is left behind it in the stream. -/
theorem extractStr_line (line : Str) : (IStream.ofStr line).extractStr [] =
    if line.dropWhile isSpace = [] then (⟨[], true, true⟩, [])
    else (⟨behindWord line, (behindWord line).isEmpty, false⟩, firstWord line) := by
  unfold IStream.extractStr IStream.sentry IStream.ofStr
  by_cases hnil : line.dropWhile isSpace = []
  · simp [IStream.good, hnil]
  · simp [IStream.good, hnil, behindWord, firstWord]

theorem firstWord_ne_nil (h : line.dropWhile isSpace ≠ []) : firstWord line ≠ [] := by
  obtain ⟨c, rest, hcons⟩ := List.exists_cons_of_ne_nil h
  have hc : isSpace c = false := head?_dropWhile (by rw [hcons]; rfl)
  unfold firstWord
  rw [hcons]
  simp [hc]

theorem not_mem_behindWord (hlf : LF ∉ line) : LF ∉ behindWord line := by
  intro hmem
  exact hlf ((List.dropWhile_sublist _).subset ((List.dropWhile_sublist _).subset hmem))

namespace HTTPHeadersParser

/-- The headers after a header line has been parsed. -/
def addLine (headers : HeaderMap) (line : Str) : HeaderMap :=
  (parseLine { fresh .REQUEST 0 with headers, lineNum := 2 } line).headers

/-- A line that is not the first one is parsed as a header line, and nothing else but the
headers counts. -/
theorem headers_parseLine (self : HTTPHeadersParser) (line : Str) :
    (self.parseLine line).headers =
      if self.lineNum = 1 then self.headers else addLine self.headers line := by
  have htwo : (2 : ℤ) ≠ 1 := by decide
  unfold addLine parseLine
  by_cases hnum : self.lineNum = 1
  · rw [if_pos hnum, if_pos hnum]
    cases self.type <;> rfl
  · rw [if_neg hnum, if_neg hnum, if_neg htwo]
    dsimp only
    split_ifs <;> rfl

/-- **What `parseLine` enters** for a header line. -/
theorem addLine_eq (headers : HeaderMap) (hlf : LF ∉ line) :
    addLine headers line = headers.add (lineEntry line) := by
  have htwo : (2 : ℤ) ≠ 1 := by decide
  unfold addLine parseLine
  rw [if_neg htwo, extractStr_line]
  by_cases hnil : line.dropWhile isSpace = []
  · have hbehind : behindWord line = [] := by
      rw [behindWord, hnil]
      rfl
    simp [hnil, lineEntry, hbehind, SortedMap.add]
  · rw [if_neg hnil]
    unfold lineEntry
    by_cases hbehind : behindWord line = []
    · -- the stream is at its end: there is no value
      simp [hbehind, SortedMap.add, IStream.getline, IStream.sentry, IStream.good]
    · have hgetline := IStream.getline_rest hbehind (not_mem_behindWord hlf) []
      have hopen : (behindWord line).isEmpty = false := by simpa using hbehind
      unfold IStream.ofStr at hgetline
      simp only [hopen, hgetline, firstWord_ne_nil hnil, hbehind, or_self, if_false]
      rfl

end HTTPHeadersParser

end Craplib
