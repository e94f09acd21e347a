import Craplib.Http.Request

/-!
# Pipelined requests are framed one by one

A delegate that calls `reset` from every `onHeaders` gets the header blocks of a
stream one after the other.  What the parser left of a segment stays in `body`, a part
of a block or several blocks, and the next event gives it to a fresh parser before
anything is read from the socket.

`parseAll` is the plain sequential parse: a fresh parser on the stream, another one on
what the first has left, and so on.  `headerSets_framed` says that the event-driven
run delivers a prefix of it, for every segmentation and any events.
-/

namespace Craplib

open HTTPHeadersParser (defaultLimit)

namespace HTTPHeadersParser

/-! ## The sequential parse -/

theorem length_write_le (self : HTTPHeadersParser) (data : List UInt8) :
    (self.write data).2.length ≤ data.length := by
  cases hready : self.ready with
  | true => rw [write, if_pos hready]
  | false =>
      rw [write_eq_consume _ _ hready]
      induction data generalizing self with
      | nil => exact Nat.le_refl _
      | cons p data ih =>
          rw [Incremental.consume]
          split
          · exact Nat.le_succ _
          · next hret =>
              cases hnow : (next self p).1.ready with
              | true => exact absurd (absorbs.done_returns self p hready hnow) hret
              | false => exact (ih _ hnow).trans (Nat.le_succ _)

/-- A parser that becomes ready has taken a byte. -/
theorem length_write_lt {self : HTTPHeadersParser} {data : List UInt8}
    (hready : self.ready = false) (hnow : (self.write data).1.ready = true) :
    (self.write data).2.length < data.length := by
  cases data with
  | nil =>
      rw [write_eq_consume _ _ hready, Incremental.consume, hready] at hnow
      simp at hnow
  | cons p data =>
      rw [write_eq_consume _ _ hready, Incremental.consume]
      split
      · exact Nat.lt_succ_self _
      · next hret =>
          cases hthen : (next self p).1.ready with
          | true => exact absurd (absorbs.done_returns self p hready hthen) hret
          | false =>
              rw [← write_eq_consume _ _ hthen]
              exact Nat.lt_succ_of_le (length_write_le _ _)

/-- The header sets of a stream: what a fresh parser makes of it, then what another fresh
one makes of the bytes the first has left, until one is not ready. -/
def parseAll (stream : List UInt8) : List HTTPHeadersParser :=
  if _h : ((fresh .REQUEST defaultLimit).write stream).1.ready then
    ((fresh .REQUEST defaultLimit).write stream).1 ::
      parseAll ((fresh .REQUEST defaultLimit).write stream).2
  else []
termination_by stream.length
decreasing_by exact length_write_lt rfl _h

/-- The header sets that come of a stream whose first bytes have gone to a parser. -/
def parseFrom (self : HTTPHeadersParser) (stream : List UInt8) : List HTTPHeadersParser :=
  if (self.write stream).1.ready then (self.write stream).1 :: parseAll (self.write stream).2
  else []

theorem parseFrom_fresh (stream : List UInt8) :
    (fresh .REQUEST defaultLimit).parseFrom stream = parseAll stream := by
  rw [parseAll, parseFrom]
  split <;> rfl

end HTTPHeadersParser

namespace HTTPRequest

open HTTPHeadersParser (parseAll parseFrom parseFrom_fresh)

/-! ## Bytes that arrive in two parts -/

/-- A `write` that returned early has completed the headers or met the limit. -/
theorem ready_or_spent {parser parser' : HTTPHeadersParser} {p : UInt8}
    (hready : parser.ready = false) (h : parser.next p = (parser', true)) :
    parser'.ready = true ∨ Spent parser' := by
  rw [HTTPHeadersParser.next] at h
  split at h
  · next hlim =>
      obtain ⟨rfl, -⟩ := Prod.mk.inj h
      exact Or.inr ⟨hready, by simp only; omega⟩
  · obtain ⟨rfl, hret⟩ := Prod.mk.inj h
    exact Or.inl hret

/-- What a parser that was given the bytes `now` makes of those that follow. -/
theorem parseFrom_append {parser : HTTPHeadersParser} (hready : parser.ready = false)
    (now later : List UInt8) :
    ((parser.write now).1.ready = true ∧ parser.parseFrom (now ++ later) =
      (parser.write now).1 :: parseAll ((parser.write now).2 ++ later)) ∨
    (Spent (parser.write now).1 ∧ parser.parseFrom (now ++ later) = []) ∨
    ((parser.write now).1.ready = false ∧ (parser.write now).2 = [] ∧
      parser.parseFrom (now ++ later) = (parser.write now).1.parseFrom later) := by
  have hnow := HTTPHeadersParser.write_eq_consume parser now hready
  have hall := HTTPHeadersParser.write_eq_consume parser (now ++ later) hready
  rcases HTTPHeadersParser.absorbs.consume_append hready now later with
    ⟨hsplit, q, p, hq, hret⟩ | ⟨hopen, hleft, hsplit⟩
  · rw [← hnow] at hsplit hret
    rw [hsplit] at hall
    rcases ready_or_spent hq hret with hdone | hspent
    · exact Or.inl ⟨hdone, by rw [parseFrom, hall, if_pos hdone]⟩
    · refine Or.inr (Or.inl ⟨hspent, ?_⟩)
      rw [parseFrom, hall, if_neg (by simp [hspent.1])]
  · rw [← hnow] at hopen hleft hsplit
    refine Or.inr (Or.inr ⟨hopen, hleft, ?_⟩)
    rw [parseFrom, parseFrom, hall, hsplit, HTTPHeadersParser.write_eq_consume _ _ hopen]

/-! ## A delegate that resets -/

/-- The delegate calls `reset` from every `onHeaders`, and nobody calls `read`. -/
def Event.Resets : Event → Prop
  | .canRead delegate => .reset ∈ delegate ∧ .read ∉ delegate
  | .canWrite delegate => .read ∉ delegate
  | .disconnect delegate => .read ∉ delegate
  | .outside program => .read ∉ program

instance : DecidablePred Event.Resets
  | .canRead _ => inferInstanceAs (Decidable (_ ∧ _))
  | .canWrite _ => inferInstanceAs (Decidable (_ ∉ _))
  | .disconnect _ => inferInstanceAs (Decidable (_ ∉ _))
  | .outside _ => inferInstanceAs (Decidable (_ ∉ _))

/-- The header set an observation gives to the delegate. -/
def Obs.headers : Obs → Option HTTPHeadersParser
  | .onHeaders parser => some parser
  | _ => none

/-- The header sets given to `onHeaders`, in order. -/
def headerSets (os : List Obs) : List HTTPHeadersParser := os.filterMap Obs.headers

theorem headerSets_append (os os' : List Obs) :
    headerSets (os ++ os') = headerSets os ++ headerSets os' :=
  List.filterMap_append

@[simp] theorem headerSets_nil : headerSets [] = [] := rfl

/-- What the delegate does itself tells it of no header set. -/
theorem headerSets_acts (self : HTTPRequest) (delegate : List Act) :
    headerSets (self.acts delegate).2 = [] := by
  induction delegate generalizing self with
  | nil => rfl
  | cons a rest ih =>
      rw [acts_cons, headerSets, List.filterMap_cons_none (by cases a <;> rfl)]
      exact ih (self.act a).1

/-- A callback without a `read`: what counts is whether it resets. -/
theorem acts_unread (self : HTTPRequest) {delegate : List Act} (h : .read ∉ delegate) :
    (self.acts delegate).1 =
      if .reset ∈ delegate then { self with state := .PARSING_HEADERS } else self := by
  induction delegate generalizing self with
  | nil => rfl
  | cons a rest ih =>
      rw [List.mem_cons, not_or] at h
      rw [acts_cons, ih _ h.2]
      cases a with
      | read => exact absurd rfl h.1
      | write data sent => simp [act]
      | reset => simp [act]

/-- What an `onHeaders` adds. -/
theorem headerSets_onHeaders (parser : HTTPHeadersParser) (os : List Obs) :
    headerSets (.onHeaders parser :: os) = parser :: headerSets os := rfl

/-- What is true between two events: the header sets delivered are the first of the
stream, and the others come of the bytes in `body` and the socket, given to the parser as
it is; or the parser is spent, and there are no others. -/
def Framed (stream : List UInt8) (delivered : List HTTPHeadersParser) (self : HTTPRequest) :
    Prop :=
  self.state = .PARSING_HEADERS ∧
    (self.parser.ready = false ∧ parseAll stream =
        delivered ++ self.parser.parseFrom (self.body ++ self.sock.flatten) ∨
      Spent self.parser ∧ parseAll stream = delivered)

variable {stream : List UInt8} {delivered : List HTTPHeadersParser} {self : HTTPRequest}

theorem framed_fresh (segments : List (List UInt8)) :
    Framed segments.flatten [] (fresh segments) := by
  refine ⟨rfl, Or.inl ⟨rfl, ?_⟩⟩
  rw [List.nil_append]
  exact (parseFrom_fresh _).symm

/-- Where `onCanRead` takes its bytes from: what is left of a segment, or the socket. -/
theorem source_flatten (self : HTTPRequest) :
    (if self.body = [] then sockRead self.sock else (self.body, self.sock)).1 ++
      (if self.body = [] then sockRead self.sock else (self.body, self.sock)).2.flatten =
        self.body ++ self.sock.flatten := by
  split
  · next hbody => rw [hbody, flatten_sockRead, List.nil_append]
  · rfl

/-- **One `onCanRead`** delivers the next header set of the stream or none. -/
theorem onCanRead_framed {delegate : List Act} (hresets : .reset ∈ delegate)
    (hunread : .read ∉ delegate) (h : Framed stream delivered self) :
    Framed stream (delivered ++ headerSets (self.onCanRead delegate).2)
      (self.onCanRead delegate).1 := by
  obtain ⟨hstate, hparser⟩ := h
  have hsource := source_flatten self
  unfold onCanRead
  rw [if_pos (by simp [hstate])]
  rcases hsrc : (if self.body = [] then sockRead self.sock else (self.body, self.sock)) with
    ⟨now, sock⟩
  rw [hsrc] at hsource
  simp only at hsource ⊢
  rcases hparser with ⟨hready, hparse⟩ | ⟨hspent, hparse⟩
  · rw [← hsource] at hparse
    rcases parseFrom_append hready now sock.flatten with
      ⟨hnow, hrest⟩ | ⟨hspent, hrest⟩ | ⟨hnow, hleft, hrest⟩
    · -- a header set: what is left goes to a fresh parser
      rw [if_pos hnow, headerSets_onHeaders, headerSets_acts, acts_unread _ hunread,
        if_pos hresets]
      refine ⟨rfl, Or.inl ⟨rfl, ?_⟩⟩
      rw [hparse, hrest, parseFrom_fresh, List.append_assoc, List.singleton_append]
    · rw [if_neg (by simp [hspent.1])]
      refine ⟨hstate, Or.inr ⟨hspent, ?_⟩⟩
      rw [hparse, hrest, headerSets_nil]
    · rw [if_neg (by simp [hnow])]
      refine ⟨hstate, Or.inl ⟨hnow, ?_⟩⟩
      simp only [hleft, List.nil_append]
      rw [hparse, hrest, headerSets_nil, List.append_nil]
  · -- past the limit nothing is delivered any more
    have hspent' := hspent.write now
    rw [if_neg (by simp [hspent'.1])]
    refine ⟨hstate, Or.inr ⟨hspent', ?_⟩⟩
    rw [hparse, headerSets_nil, List.append_nil]

/-- While headers are parsed a program that does not read changes nothing. -/
theorem acts_framed {program : List Act} (hunread : .read ∉ program)
    (h : Framed stream delivered self) : (self.acts program).1 = self := by
  rw [acts_unread _ hunread, ← h.1, ite_self]

theorem handle_framed {e : Event} (he : e.Resets) (h : Framed stream delivered self) :
    Framed stream (delivered ++ headerSets (self.handle e).2) (self.handle e).1 := by
  have hstate : self.state ≠ .READING_BODY := by simp [h.1]
  cases e with
  | canRead delegate => exact onCanRead_framed he.1 he.2 h
  | canWrite delegate =>
      rw [handle, onCanWrite, if_neg hstate]
      simpa using h
  | disconnect delegate =>
      have hnone : headerSets (self.onDisconnect delegate).2 = [] :=
        headerSets_acts self delegate
      have hsame : (self.onDisconnect delegate).1 = self := acts_framed he h
      rwa [handle, hnone, hsame, List.append_nil]
  | outside program =>
      rwa [handle, headerSets_acts, acts_framed he h, List.append_nil]

theorem run_framed {events : List Event} (he : ∀ e ∈ events, e.Resets)
    (h : Framed stream delivered self) :
    Framed stream (delivered ++ headerSets (self.run events).2) (self.run events).1 := by
  induction events generalizing self delivered with
  | nil => simpa [run] using h
  | cons e es ih =>
      rw [run_cons, headerSets_append, ← List.append_assoc]
      exact ih (fun x hx => he x (List.mem_cons_of_mem _ hx))
        (handle_framed (he e List.mem_cons_self) h)

/-- **Pipelined requests are framed one by one.**  For every segmentation of a stream and
all events: a delegate that resets from every `onHeaders` in a program that reads nothing is
given the header sets of the stream, in order, from the first on. -/
theorem headerSets_framed (segments : List (List UInt8)) (events : List Event)
    (h : ∀ e ∈ events, e.Resets) :
    headerSets ((fresh segments).run events).2 <+: parseAll segments.flatten := by
  have hframed := run_framed h (framed_fresh segments)
  rw [List.nil_append] at hframed
  rcases hframed.2 with ⟨-, hparse⟩ | ⟨-, hparse⟩
  · exact hparse ▸ List.prefix_append _ _
  · exact hparse ▸ List.prefix_rfl

/-- Two requests, `GET /a` and `GET /b`, and the first byte of a third; the second begins in
the segment that ends the first. -/
theorem headerSets_framed_example :
    let segments : List (List UInt8) := [[71, 69, 84, 32, 47, 97, 13, 10, 65, 58, 32, 120, 13],
      [10, 13, 10, 71, 69], [84, 32, 47, 98, 13, 10, 65, 58, 32, 121, 13, 10, 13, 10, 71]]
    let events : List Event := [.canRead [.reset], .canRead [.reset], .canWrite [],
      .canRead [.reset], .canRead [.reset], .canRead [.reset]]
    headerSets ((fresh segments).run events).2 <+: parseAll segments.flatten ∧
      (headerSets ((fresh segments).run events).2).map (·.action) = [[47, 97], [47, 98]] :=
  ⟨headerSets_framed _ _ (by decide), by decide⟩

end HTTPRequest

end Craplib
