import Mathlib.Data.List.Lex
import Craplib.Lib.SortedMap
import Craplib.Http.Streams

/-!
# `HTTPHeadersParser`

The header parser of `HTTPRequest.cpp`.  `write` takes the bytes of a `Data` one
by one and returns early in two places, at the limit and at the empty line; what
it has not taken stays in the `Data`.  The model passes the bytes a `Data` shows as
a list and returns the ones left.

A line is parsed late: `buf` collects the physical line, `curLine` the logical
one, and `parseLine` runs when the first byte of the *next* logical line is seen.
-/

namespace Craplib

/-! ## The map of headers -/

/-- The order of `std::map<std::string, …>`: `char_traits<char>` compares bytes as
unsigned. -/
def StrLess : Str → Str → Prop := List.Lex fun a b => a.toNat < b.toNat

instance : DecidableRel StrLess :=
  inferInstanceAs (DecidableRel (List.Lex fun a b : UInt8 => a.toNat < b.toNat))

theorem StrLess.trans {s t u : Str} (h : StrLess s t) (h' : StrLess t u) : StrLess s u := by
  unfold StrLess at h h' ⊢
  induction h generalizing u with
  | nil =>
      cases h' with
      | cons _ => exact .nil
      | rel _ => exact .nil
  | cons _ ih =>
      cases h' with
      | cons h' => exact .cons (ih h')
      | rel h' => exact .rel h'
  | rel h =>
      cases h' with
      | cons _ => exact .rel h
      | rel h' => exact .rel (Nat.lt_trans h h')

instance : IsTrans Str StrLess := ⟨fun _ _ _ => StrLess.trans⟩

instance : Std.Asymm StrLess :=
  have : Std.Asymm fun a b : UInt8 => a.toNat < b.toNat := ⟨fun _ _ => Nat.lt_asymm⟩
  inferInstanceAs (Std.Asymm (List.Lex fun a b : UInt8 => a.toNat < b.toNat))

instance : Std.Trichotomous StrLess :=
  have : Std.Trichotomous fun a b : UInt8 => a.toNat < b.toNat :=
    ⟨fun _ _ h h' => UInt8.toNat_inj.mp
      (Nat.le_antisymm (Nat.le_of_not_lt h') (Nat.le_of_not_lt h))⟩
  inferInstanceAs (Std.Trichotomous (List.Lex fun a b : UInt8 => a.toNat < b.toNat))

/-- `std::map<std::string, std::string>` -/
abbrev HeaderMap := SortedMap StrLess Str

/-! ## The parser -/

/-- `HTTPHeadersParser::Type` -/
inductive ParserType
  | REQUEST
  | RESPONSE
  deriving DecidableEq, Repr

/-- `HTTPHeadersParser`.  `buf` is the text of the string stream of that name. -/
structure HTTPHeadersParser where
  method : Str
  version : Str
  action : Str
  status : Str
  code : ℤ
  headers : HeaderMap
  type : ParserType
  ready : Bool
  limit : ℤ
  count : ℤ
  lineNum : ℤ
  buf : Str
  curLine : Str
  deriving DecidableEq

namespace HTTPHeadersParser

/-- `HTTPHeadersParser(Type tp, long lim)`. -/
def fresh (tp : ParserType) (lim : ℤ) : HTTPHeadersParser where
  method := []
  version := []
  action := []
  status := []
  code := 0
  headers := .empty
  type := tp
  ready := false
  limit := lim
  count := 0
  lineNum := 0
  buf := []
  curLine := []

/-- The default of `lim`. -/
def defaultLimit : ℤ := 4 * 1024

/-- `parseLine`. -/
def parseLine (self : HTTPHeadersParser) (line : Str) : HTTPHeadersParser :=
  let ss := IStream.ofStr line
  if self.lineNum = 1 then
    match self.type with
    | .REQUEST =>
      let (ss, method) := ss.extractStr self.method
      let (ss, action) := ss.extractStr self.action
      let (_, version) := ss.extractStr self.version
      { self with method, action, version }
    | .RESPONSE =>
      let (ss, version) := ss.extractStr self.version
      let (ss, code) := ss.extractInt self.code
      let (_, status) := ss.getline self.status
      { self with version, code, status }
  else
    let (ss, key) := ss.extractStr []
    let (_, value) := ss.getline []
    if key = [] ∨ value = [] then self
    else { self with headers := self.headers.insertNew key.dropLast value.tail }

/-- The last byte of a logical line has been seen: the body of `if(p == '\n')` for a
physical line that is not empty. -/
def endLine (self : HTTPHeadersParser) : HTTPHeadersParser :=
  { self with curLine := self.curLine ++ self.buf, buf := [] }

/-- What the first byte `p` of a physical line does before it is stored. -/
def beginLine (self : HTTPHeadersParser) (p : UInt8) : HTTPHeadersParser :=
  if p = SP ∨ p = HT then self
  else if 0 < self.lineNum then { self.parseLine self.curLine with curLine := [] }
  else self

/-- The loop of `write`: the parser, and the bytes that are left. -/
def writeLoop (self : HTTPHeadersParser) : List UInt8 → HTTPHeadersParser × List UInt8
  | [] => (self, [])
  | p :: data =>
    let self := { self with count := self.count + 1 }
    if self.limit ≤ self.count then (self, data)
    else if p = CR then self.writeLoop data
    else if p = LF then
      let self := { self with lineNum := self.lineNum + 1 }
      if self.buf = [] then ({ self with buf := [], ready := true }, data)
      else self.endLine.writeLoop data
    else
      let self := if self.buf = [] then self.beginLine p else self
      { self with buf := self.buf ++ [p] }.writeLoop data

/-- `HTTPHeadersParser::write`. -/
def write (self : HTTPHeadersParser) (data : List UInt8) : HTTPHeadersParser × List UInt8 :=
  if self.ready then (self, data) else self.writeLoop data

/-! ## One byte -/

/-- A byte that is stored. -/
def store (self : HTTPHeadersParser) (p : UInt8) : HTTPHeadersParser :=
  let self := if self.buf = [] then self.beginLine p else self
  { self with buf := self.buf ++ [p] }

/-- What one byte below the limit does to the parser; `ready` tells whether `write`
returns after it. -/
def take (self : HTTPHeadersParser) (p : UInt8) : HTTPHeadersParser :=
  let self := { self with count := self.count + 1 }
  if p = CR then self
  else if p = LF then
    let self := { self with lineNum := self.lineNum + 1 }
    if self.buf = [] then { self with buf := [], ready := true } else self.endLine
  else self.store p

end HTTPHeadersParser

end Craplib
