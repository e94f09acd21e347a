import Craplib.Http.Lines
import Craplib.Http.Request

/-!
# Read edges that `HTTPRequest` swallows

A socket is registered edge-triggered: `onCanRead` is called when something arrives, and
not again before something more does.  While the headers are parsed the handler gives the
parser what an earlier request has left in `body`, and only if there was nothing it reads
from the socket; when `body` does not complete the headers, what has just arrived stays
where it is, and nobody comes back for it.

`edge_kept_iff` says which events are lost this way, on every segmentation and for all
events and delegates: those that find in `body` the beginning of a header block, too short
to end it and too short to meet the limit.
-/

namespace Craplib

namespace HTTPHeadersParser

/-! ## What is left of a segment -/

/-- A `write` that neither completes the headers nor meets the limit takes every byte. -/
theorem write_open {self : HTTPHeadersParser} (data : List UInt8) (hready : self.ready = false)
    (hnot : (self.write data).1.ready = false)
    (hlim : (self.write data).1.count < (self.write data).1.limit) :
    (self.write data).1.count = self.count + data.length ∧
      (self.write data).1.limit = self.limit := by
  rw [write_eq_consume _ _ hready] at hnot hlim ⊢
  induction data generalizing self with
  | nil => simp [Incremental.consume]
  | cons p data ih =>
      rw [Incremental.consume, next] at hnot hlim ⊢
      by_cases hmet : self.limit ≤ self.count + 1
      · simp only [hmet, if_true] at hlim
        omega
      · simp only [hmet, if_false] at hnot hlim ⊢
        cases htake : (self.take p).ready with
        | true => simp [htake] at hnot
        | false =>
            simp only [htake, Bool.false_eq_true, if_false] at hnot hlim ⊢
            obtain ⟨hcount, hlimit⟩ := ih htake hnot hlim
            rw [hcount, hlimit, take_count, take_limit, List.length_cons]
            exact ⟨by push_cast; omega, rfl⟩

theorem count_write_le {self : HTTPHeadersParser} (data : List UInt8)
    (hready : self.ready = false) : (self.write data).1.count ≤ self.count + data.length ∧
      (self.write data).1.limit = self.limit := by
  rw [write_eq_consume _ _ hready]
  induction data generalizing self with
  | nil => simp [Incremental.consume]
  | cons p data ih =>
      rw [Incremental.consume, next, List.length_cons]
      by_cases hmet : self.limit ≤ self.count + 1
      · simp only [hmet, if_true]
        exact ⟨by push_cast; omega, trivial⟩
      · simp only [hmet, if_false]
        cases htake : (self.take p).ready with
        | true =>
            rw [if_pos rfl, take_count, take_limit]
            exact ⟨by push_cast; omega, rfl⟩
        | false =>
            rw [if_neg Bool.false_ne_true]
            obtain ⟨hcount, hlimit⟩ := ih htake
            rw [take_count] at hcount
            rw [hlimit, take_limit]
            exact ⟨by push_cast; omega, rfl⟩

/-- **What a fresh parser makes of some bytes.**  It completes the headers or meets the limit
exactly when the bytes reach the limit or an empty line ends in them. -/
theorem write_fresh_iff (tp : ParserType) (lim : ℤ) (data : List UInt8) :
    (((fresh tp lim).write data).1.ready = true ∨
      ((fresh tp lim).write data).1.limit ≤ ((fresh tp lim).write data).1.count) ↔
    lim ≤ data.length ∨ ∃ pre, pre <+: data ∧ EndsEmptyLine pre := by
  have hfresh : (fresh tp lim).ready = false := rfl
  constructor
  · rintro (hready | hlim)
    · right
      obtain ⟨pre, hpre, hfirst⟩ := write_ready tp lim hready
      exact ⟨pre, ⟨_, hpre.symm⟩, hfirst.1⟩
    · left
      obtain ⟨hcount, hlimit⟩ := count_write_le data hfresh
      have hzero : (fresh tp lim).count = 0 ∧ (fresh tp lim).limit = lim := ⟨rfl, rfl⟩
      omega
  · intro h
    by_contra hnot
    rw [not_or, Bool.not_eq_true, Int.not_le] at hnot
    obtain ⟨hcount, hlimit⟩ := write_open data hfresh hnot.1 hnot.2
    have hshort : (data.length : ℤ) < lim := by
      have hzero : (fresh tp lim).count = 0 ∧ (fresh tp lim).limit = lim := ⟨rfl, rfl⟩
      omega
    rcases h with hlong | ⟨pre, hpre, hempty⟩
    · omega
    · -- the line feed that ends the empty line would have made the parser ready
      have hview := absorbs.view_consume hfresh data
      rw [← write_eq_consume _ _ hfresh, view_fresh tp (by omega)] at hview
      have hend : (data.foldl absorb (fresh tp lim)).ready = false := by
        rw [← hview]
        exact hnot.1
      have hlen := hpre.length_le
      rw [ready_mono hpre (ready_of_endsEmptyLine lim tp hempty (by omega))] at hend
      cases hend

end HTTPHeadersParser

namespace HTTPRequest

open HTTPHeadersParser (defaultLimit)

/-! ## One event -/

/-- The calls of `RWSocket::read` that `onCanRead` makes, those of the delegate included. -/
def socketReads (self : HTTPRequest) (delegate : List Act) : ℕ :=
  if self.state ≠ .READING_BODY then
    let (own, body) := if self.body = [] then (1, (sockRead self.sock).1) else (0, self.body)
    if (self.parser.write body).1.ready then own + delegate.count .read else own
  else delegate.count .read

/-- **The edge is kept**: an `onCanRead` of a request that is parsing headers reports them,
or has met the limit, or has read from the socket. -/
def KeepsEdge (self : HTTPRequest) (delegate : List Act) : Prop :=
  self.state = .PARSING_HEADERS → (∀ parser, .onHeaders parser ∉ (self.onCanRead delegate).2) →
    (self.onCanRead delegate).1.parser.count < (self.onCanRead delegate).1.parser.limit →
      0 < self.socketReads delegate

/-- What an earlier request has left is nothing, or enough: it ends the headers or meets the
limit, unless the parser has met it before. -/
def LeftEnough (self : HTTPRequest) : Prop :=
  self.state = .PARSING_HEADERS → self.body = [] ∨
    self.parser.limit ≤ self.parser.count + 1 ∨ self.parser.limit ≤ self.body.length ∨
      ∃ pre, pre <+: self.body ∧ EndsEmptyLine pre

theorem sock_acts (self : HTTPRequest) (delegate : List Act) :
    (self.acts delegate).1.sock = self.sock.drop (delegate.count .read) := by
  induction delegate generalizing self with
  | nil => rfl
  | cons a rest ih =>
      rw [acts_cons, ih]
      cases a with
      | read => cases hsock : self.sock <;> simp [act, sockRead, hsock]
      | write data sent => simp [act]
      | reset => simp [act]

/-- The socket is behind by as many segments as there were reads. -/
theorem sock_onCanRead (self : HTTPRequest) (delegate : List Act) :
    (self.onCanRead delegate).1.sock = self.sock.drop (self.socketReads delegate) := by
  unfold onCanRead socketReads
  by_cases hstate : self.state = .READING_BODY
  · rw [if_neg (not_not_intro hstate), if_neg (not_not_intro hstate)]
    exact sock_acts self delegate
  · rw [if_pos hstate, if_pos hstate]
    have hown : (if self.body = [] then sockRead self.sock else (self.body, self.sock)).2 =
        self.sock.drop (if self.body = [] then (1, (sockRead self.sock).1) else (0, self.body)).1 ∧
        (if self.body = [] then sockRead self.sock else (self.body, self.sock)).1 =
          (if self.body = [] then (1, (sockRead self.sock).1) else (0, self.body)).2 := by
      split
      · cases hsock : self.sock <;> simp [sockRead]
      · simp
    obtain ⟨hsock, hbody⟩ := hown
    rcases hsrc : (if self.body = [] then sockRead self.sock else (self.body, self.sock)) with
      ⟨body, sock⟩
    rcases hgot : (if self.body = [] then (1, (sockRead self.sock).1) else (0, self.body)) with
      ⟨own, got⟩
    rw [hsrc, hgot] at hsock hbody
    simp only at hsock hbody ⊢
    rw [← hbody]
    split
    · rw [sock_acts, hsock, List.drop_drop]
    · exact hsock

/-! ## What an event finds in `body` -/

/-- Bytes are left in `body` when the headers are complete, and a fresh parser follows; or
when the limit is met. -/
def Primed (self : HTTPRequest) : Prop :=
  self.parser.ready = false ∧
    (self.body = [] ∨ self.parser = .fresh .REQUEST defaultLimit ∨ Spent self.parser)

theorem primed_fresh (segments : List (List UInt8)) : (fresh segments).Primed :=
  ⟨rfl, Or.inl rfl⟩

theorem acts_frame (self : HTTPRequest) (delegate : List Act) :
    (self.acts delegate).1.body = self.body ∧ (self.acts delegate).1.parser = self.parser := by
  induction delegate generalizing self with
  | nil => exact ⟨rfl, rfl⟩
  | cons a rest ih =>
      rw [acts_cons]
      obtain ⟨hbody, hparser⟩ := ih (self.act a).1
      cases a with
      | read => exact ⟨hbody, hparser⟩
      | write data sent => exact ⟨hbody, hparser⟩
      | reset => exact ⟨hbody, hparser⟩

variable {self : HTTPRequest}

theorem Primed.acts (h : self.Primed) (delegate : List Act) : (self.acts delegate).1.Primed := by
  obtain ⟨hbody, hparser⟩ := self.acts_frame delegate
  unfold Primed
  rw [hbody, hparser]
  exact h

theorem Primed.onCanRead (h : self.Primed) (delegate : List Act) :
    (self.onCanRead delegate).1.Primed := by
  unfold HTTPRequest.onCanRead
  by_cases hstate : self.state = .READING_BODY
  · rw [if_neg (not_not_intro hstate)]
    exact h.acts delegate
  · rw [if_pos hstate]
    rcases (if self.body = [] then sockRead self.sock else (self.body, self.sock)) with
      ⟨body, sock⟩
    simp only
    split
    · exact ⟨rfl, Or.inr (Or.inl rfl)⟩
    · next hnot =>
        rw [Bool.not_eq_true] at hnot
        refine ⟨hnot, ?_⟩
        by_cases hrest : (self.parser.write body).2 = []
        · exact Or.inl hrest
        · exact Or.inr (Or.inr (spent_of_rest body h.1 hnot hrest))

theorem Primed.handle (h : self.Primed) (e : Event) : (self.handle e).1.Primed := by
  cases e with
  | canRead delegate => exact h.onCanRead delegate
  | canWrite delegate =>
      rw [HTTPRequest.handle, onCanWrite]
      split
      · exact h.acts delegate
      · exact h
  | disconnect delegate => exact h.acts delegate
  | outside program => exact h.acts program

theorem Primed.run (h : self.Primed) (events : List Event) : (self.run events).1.Primed := by
  induction events generalizing self with
  | nil => exact h
  | cons e es ih =>
      rw [run_cons]
      exact ih (h.handle e)

/-! ## Which edges are kept -/

/-- An event of a request that is parsing headers, with something in `body`. -/
theorem keepsEdge_iff_write (delegate : List Act) (hstate : self.state = .PARSING_HEADERS)
    (hbody : self.body ≠ []) : self.KeepsEdge delegate ↔
      (self.parser.write self.body).1.ready = true ∨
        (self.parser.write self.body).1.limit ≤ (self.parser.write self.body).1.count := by
  have hpar : self.state ≠ .READING_BODY := by simp [hstate]
  unfold KeepsEdge HTTPRequest.onCanRead socketReads
  rw [if_pos hpar, if_pos hpar, if_neg hbody, if_neg hbody]
  simp only [hstate, forall_const]
  cases hready : (self.parser.write self.body).1.ready with
  | true =>
      refine iff_of_true (fun hnone => ?_) (Or.inl rfl)
      exact absurd List.mem_cons_self (hnone (self.parser.write self.body).1)
  | false => simp

/-- **One event**: the edge is kept exactly when enough is left, or nothing. -/
theorem keepsEdge_iff (h : self.Primed) (delegate : List Act) :
    self.KeepsEdge delegate ↔ self.LeftEnough := by
  unfold LeftEnough
  by_cases hstate : self.state = .PARSING_HEADERS
  · by_cases hbody : self.body = []
    · refine iff_of_true (fun _ _ _ => ?_) fun _ => Or.inl hbody
      unfold socketReads
      rw [if_pos (by simp [hstate]), if_pos hbody]
      simp only
      split <;> omega
    · rw [keepsEdge_iff_write delegate hstate hbody]
      simp only [hstate, hbody, forall_const, false_or]
      rcases h.2 with hnone | hfresh | hspent
      · exact absurd hnone hbody
      · rw [hfresh, HTTPHeadersParser.write_fresh_iff]
        have hroom : ¬ (HTTPHeadersParser.fresh .REQUEST defaultLimit).limit ≤
            (HTTPHeadersParser.fresh .REQUEST defaultLimit).count + 1 := by decide
        exact (or_iff_right hroom).symm
      · -- the parser takes one more byte, past its limit
        refine iff_of_true (Or.inr ?_) (Or.inl hspent.2)
        obtain ⟨p, rest, hcons⟩ := List.exists_cons_of_ne_nil hbody
        rw [hcons, HTTPHeadersParser.write, if_neg (by simp [hspent.1]),
          HTTPHeadersParser.writeLoop, if_pos hspent.2]
        exact hspent.2
  · exact iff_of_true (fun hpar => absurd hpar hstate) fun hpar => absurd hpar hstate

/-- **When no read edge is swallowed.**  On every segmentation, for all events and whatever
the delegate does: every `onCanRead` in the state `PARSING_HEADERS` reports the headers, or
meets the limit, or reads from the socket, exactly when each of them finds nothing in
`body`, or bytes in it that end a header block or meet the limit. -/
theorem edge_kept_iff (segments : List (List UInt8)) (events : List Event) :
    (∀ pre delegate, pre ++ [.canRead delegate] <+: events →
      ((fresh segments).run pre).1.KeepsEdge delegate) ↔
    ∀ pre delegate, pre ++ [.canRead delegate] <+: events →
      ((fresh segments).run pre).1.LeftEnough :=
  forall_congr' fun pre => forall_congr' fun delegate => imp_congr_right fun _ =>
    keepsEdge_iff ((primed_fresh segments).run pre) delegate

/-- `GET /` and `GET /`: the second request begins in the segment that ends the first, and
the delegate resets.  The event that announces the rest of it leaves it in the socket. -/
theorem edge_swallowed :
    let segments : List (List UInt8) := [[71, 69, 84, 32, 47, 13, 10, 13, 10, 71, 69],
      [84, 32, 47, 13, 10, 13, 10]]
    let before := ((fresh segments).run [.canRead [.reset]]).1
    before.state = .PARSING_HEADERS ∧ before.body = [71, 69] ∧
      ¬ before.KeepsEdge [.reset] ∧
      (before.onCanRead [.reset]).1.sock = [[84, 32, 47, 13, 10, 13, 10]] := by
  refine ⟨by decide, by decide, fun hkept => ?_, by decide⟩
  have hnone : ∀ parser, Obs.onHeaders parser ∉ (onCanRead ((fresh
      [[71, 69, 84, 32, 47, 13, 10, 13, 10, 71, 69], [84, 32, 47, 13, 10, 13, 10]]).run
        [.canRead [.reset]]).1 [.reset]).2 := by
    have hempty : (onCanRead ((fresh
        [[71, 69, 84, 32, 47, 13, 10, 13, 10, 71, 69], [84, 32, 47, 13, 10, 13, 10]]).run
          [.canRead [.reset]]).1 [.reset]).2 = [] := by decide
    rw [hempty]
    exact fun _ => List.not_mem_nil
  exact absurd (hkept (by decide) hnone (by decide)) (by decide)

end HTTPRequest

end Craplib
