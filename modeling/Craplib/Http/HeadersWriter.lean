import Craplib.Data.Handles
import Craplib.Http.HeadersParser

/-!
# `HTTPHeadersWriter`

The writer of `HTTPRequest.h` and `HTTPRequest.cpp`: a first line, a map of headers,
and `getData`, which puts them into one block and clears both.  The block is a
`Data` of `(int)ss.str().length()` bytes of the text; it is given here as the bytes
that `Data` shows.
-/

namespace Craplib

/-- The bytes of a literal. -/
def chars (cs : List Char) : Str := cs.map fun c => .ofNat c.toNat

/-- `HTTPMethod` -/
inductive HTTPMethod
  | InvalidMethod
  | GET
  | POST
  | HEAD
  | PUT
  | DELETE
  deriving DecidableEq, Repr

/-- `HTTPVersion` -/
inductive HTTPVersion
  | InvalidVersion
  | HTTP_1_0
  | HTTP_1_1
  deriving DecidableEq, Repr

/-- `methodToString` -/
def methodToString : HTTPMethod → Str
  | .GET => chars ['G', 'E', 'T']
  | .POST => chars ['P', 'O', 'S', 'T']
  | .PUT => chars ['P', 'U', 'T']
  | .DELETE => chars ['D', 'E', 'L', 'E', 'T', 'E']
  | .HEAD => chars ['H', 'E', 'A', 'D']
  | .InvalidMethod => chars ['U', 'N', 'K', 'N', 'O', 'W', 'N']

/-- `versionToString` -/
def versionToString : HTTPVersion → Str
  | .HTTP_1_0 => chars ['H', 'T', 'T', 'P', '/', '1', '.', '0']
  | .HTTP_1_1 => chars ['H', 'T', 'T', 'P', '/', '1', '.', '1']
  | .InvalidVersion => chars ['H', 'T', 'T', 'P', '/', 'I', 'N', 'V', 'A', 'L', 'I', 'D']

/-- `"\r\n"` -/
def crlf : Str := [CR, LF]

/-- `ss << code`, for an `int` in decimal. -/
def intToStr (code : ℤ) : Str :=
  (if code < 0 then chars ['-'] else []) ++ chars (Nat.toDigits 10 code.natAbs)

/-- `HTTPHeadersWriter` -/
structure HTTPHeadersWriter where
  firstLine : Str
  headers : HeaderMap
  deriving DecidableEq

namespace HTTPHeadersWriter

/-- A writer as it is constructed. -/
def fresh : HTTPHeadersWriter := ⟨[], .empty⟩

/-- `addHeader` -/
def addHeader (self : HTTPHeadersWriter) (name value : Str) : HTTPHeadersWriter :=
  { self with headers := self.headers.insertNew name value }

/-- `addHeader` for each entry. -/
def addHeaders (self : HTTPHeadersWriter) (es : List (Str × Str)) : HTTPHeadersWriter :=
  es.foldl (fun w e => w.addHeader e.1 e.2) self

theorem addHeaders_eq (self : HTTPHeadersWriter) (es : List (Str × Str)) :
    self.addHeaders es = { self with headers := self.headers.insertAll es } := by
  induction es generalizing self with
  | nil => rfl
  | cons e es ih => exact ih (self.addHeader e.1 e.2)

/-- `setResponse` -/
def setResponse (self : HTTPHeadersWriter) (version : HTTPVersion) (code : ℤ) (status : Str) :
    HTTPHeadersWriter :=
  { self with
    firstLine := versionToString version ++ [SP] ++ intToStr code ++ [SP] ++ status ++ crlf }

/-- `setRequest` -/
def setRequest (self : HTTPHeadersWriter) (method : HTTPMethod) (query : Str)
    (version : HTTPVersion) : HTTPHeadersWriter :=
  { self with
    firstLine := methodToString method ++ [SP] ++ query ++ [SP] ++ versionToString version ++ crlf }

/-- One entry of the map, as `getData` writes it: name, `": "`, value, `"\r\n"`. -/
def headerLine (e : Str × Str) : Str := e.1 ++ chars [':', ' '] ++ e.2 ++ crlf

/-- The text `getData` has in its string stream. -/
def text (self : HTTPHeadersWriter) : Str :=
  self.firstLine ++ self.headers.entries.flatMap headerLine ++ crlf

/-- The conversion `(int)` of a `size_t`. -/
def intOfSize (n : ℕ) : ℤ := Int.bmod n (2 ^ 32)

/-- `getData`: the writer it leaves, and the bytes of the block or what was thrown. -/
def getData (self : HTTPHeadersWriter) : HTTPHeadersWriter × Except Thrown (List UInt8) :=
  if self.firstLine = [] then (self, .error .outOfRange)
  else
    let size := intOfSize self.text.length
    -- `Data(int size, const void * data)`: a negative size does not get memory
    (fresh, if size < 0 then .error .badAlloc else .ok (self.text.take size.toNat))

/-- The block is the beginning of the text. -/
theorem block_of_getData {self : HTTPHeadersWriter} {block : List UInt8}
    (h : self.getData.2 = .ok block) : block <+: self.text := by
  unfold getData at h
  split at h
  · cases h
  · dsimp only at h
    split at h
    · cases h
    · rw [← Except.ok.inj h]
      exact List.take_prefix _ _

end HTTPHeadersWriter

end Craplib
