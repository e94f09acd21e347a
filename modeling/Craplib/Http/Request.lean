import Craplib.Http.Chunking

/-!
# `HTTPRequest`: the body bytes that arrive with the headers

An `HTTPRequest` sits between a socket and a delegate.  Bytes of one request can be
in three places: in the kernel, in `body`, and in the parser.  While the headers
are parsed, `onCanRead` moves a segment from the socket to `body` and from there to
the parser; afterwards the delegate takes the message body with
`HTTPRequest::read`, which goes straight to the socket.  What the parser left in
`body` is taken by neither.

The socket is the list of what its reads will return, so a list of segments is one
way the incoming stream can be cut (`RWSocket::read` returns an empty `Data` when
nothing is there).  The delegate is given by what it does in each of its callbacks; the
program may read, write and reset between two events too, whatever `state` is.

`body_exact_iff` says for which segmentations no body byte is skipped, whatever
the events are and whatever a delegate does that reads nothing before `onHeaders`.
-/

namespace Craplib

/-- `HTTPRequest::state` -/
inductive HTTPRequest.State
  | PARSING_HEADERS
  | READING_BODY
  | DEAD
  deriving DecidableEq, Repr

/-- `HTTPRequest`. -/
structure HTTPRequest where
  sock : List (List UInt8)
  body : List UInt8
  parser : HTTPHeadersParser
  state : HTTPRequest.State
  deriving DecidableEq

/-- What a program can do with a request. -/
inductive HTTPRequest.Act
  /-- `request.read(d)` -/
  | read
  /-- `request.write(d)`, and `send` takes the first `sent` bytes -/
  | write (data : List UInt8) (sent : ℕ)
  /-- `request.reset()` -/
  | reset
  deriving DecidableEq, Repr

/-- What the run loop and the delegate make happen, with what the delegate does when
it is called. -/
inductive HTTPRequest.Event
  /-- the socket calls `onCanRead` -/
  | canRead (delegate : List HTTPRequest.Act)
  /-- the socket calls `onCanWrite` -/
  | canWrite (delegate : List HTTPRequest.Act)
  /-- the socket calls `onDisconnect` -/
  | disconnect (delegate : List HTTPRequest.Act)
  /-- the program acts on the request between two events -/
  | outside (program : List HTTPRequest.Act)
  deriving DecidableEq, Repr

/-- What passes between the request and its delegate. -/
inductive HTTPRequest.Obs
  /-- `delegate->onHeaders(*this, *parser)` -/
  | onHeaders (parser : HTTPHeadersParser)
  /-- `delegate->onCanRead(*this)` -/
  | onCanRead
  /-- `delegate->onCanWrite(*this)` -/
  | onCanWrite
  /-- `delegate->onDisconnect(*this)` -/
  | onDisconnect
  /-- `read` returned these bytes -/
  | read (bytes : List UInt8)
  /-- `write` sent these bytes -/
  | wrote (bytes : List UInt8)
  /-- `reset` was called -/
  | reset
  deriving DecidableEq

/-- `RWSocket::read`: the next segment, or nothing. -/
def sockRead : List (List UInt8) → List UInt8 × List (List UInt8)
  | [] => ([], [])
  | segment :: rest => (segment, rest)

namespace HTTPRequest

/-- `HTTPRequest(Delegate* del, Socket& sock)`. -/
def fresh (segments : List (List UInt8)) : HTTPRequest where
  sock := segments
  body := []
  parser := .fresh .REQUEST HTTPHeadersParser.defaultLimit
  state := .PARSING_HEADERS

/-- `HTTPRequest::read`, `HTTPRequest::write` and `HTTPRequest::reset`. -/
def act (self : HTTPRequest) : Act → HTTPRequest × Obs
  | .read => ({ self with sock := (sockRead self.sock).2 }, .read (sockRead self.sock).1)
  | .write data sent => (self, .wrote (data.take sent))
  | .reset => ({ self with state := .PARSING_HEADERS }, .reset)

/-- A callback of the delegate. -/
def acts (self : HTTPRequest) : List Act → HTTPRequest × List Obs
  | [] => (self, [])
  | a :: rest =>
    let (self, o) := self.act a
    let (self, os) := self.acts rest
    (self, o :: os)

/-- `HTTPRequest::onCanRead`. -/
def onCanRead (self : HTTPRequest) (delegate : List Act) : HTTPRequest × List Obs :=
  if self.state ≠ .READING_BODY then
    let (body, sock) := if self.body = [] then sockRead self.sock else (self.body, self.sock)
    let (parser, body) := self.parser.write body
    if parser.ready then
      let (self, os) := acts ⟨sock, body, parser, .READING_BODY⟩ delegate
      ({ self with parser := .fresh .REQUEST HTTPHeadersParser.defaultLimit },
        .onHeaders parser :: os)
    else
      (⟨sock, body, parser, self.state⟩, [])
  else
    let (self, os) := self.acts delegate
    (self, .onCanRead :: os)

/-- `HTTPRequest::onCanWrite`. -/
def onCanWrite (self : HTTPRequest) (delegate : List Act) : HTTPRequest × List Obs :=
  if self.state = .READING_BODY then
    let (self, os) := self.acts delegate
    (self, .onCanWrite :: os)
  else
    (self, [])

/-- `HTTPRequest::onDisconnect`. -/
def onDisconnect (self : HTTPRequest) (delegate : List Act) : HTTPRequest × List Obs :=
  let (self, os) := self.acts delegate
  (self, .onDisconnect :: os)

/-- One event. -/
def handle (self : HTTPRequest) : Event → HTTPRequest × List Obs
  | .canRead delegate => self.onCanRead delegate
  | .canWrite delegate => self.onCanWrite delegate
  | .disconnect delegate => self.onDisconnect delegate
  | .outside program => self.acts program

/-- A sequence of events, with all that passes between the request and its delegate. -/
def run (self : HTTPRequest) : List Event → HTTPRequest × List Obs
  | [] => (self, [])
  | e :: es =>
    let (self, os) := self.handle e
    let (self, os') := self.run es
    (self, os ++ os')

/-! ## The body as the delegate gets it -/

/-- What the delegate has of the message body: nothing before the first `onHeaders`,
then what `read` returned, until it calls `reset`. -/
inductive Body
  | before
  | reading (bytes : List UInt8)
  | closed (bytes : List UInt8)
  deriving DecidableEq, Repr

/-- One more observation. -/
def Body.next : Body → Obs → Body
  | .before, .onHeaders _ => .reading []
  | .reading bytes, .read d => .reading (bytes ++ d)
  | .reading bytes, .reset => .closed bytes
  | b, _ => b

/-- The bytes of the message body that were read. -/
def Body.bytes : Body → List UInt8
  | .before => []
  | .reading bytes => bytes
  | .closed bytes => bytes

/-- The body bytes among the observations. -/
def bodyRead (os : List Obs) : List UInt8 := (os.foldl Body.next .before).bytes

/-- Nothing is read before the first `onHeaders`: a delegate that does so takes the headers
from under the parser. -/
def ReadsBody : List Obs → Prop
  | [] => True
  | .onHeaders _ :: _ => True
  | .read _ :: _ => False
  | _ :: os => ReadsBody os

/-- **No body byte is lost** on these segments: whatever the events are and whatever a
delegate does that reads nothing before the first `onHeaders`, the body bytes read are a
prefix of the stream behind the first empty line. -/
def BodyExact (segments : List (List UInt8)) : Prop :=
  ∀ events pre post, segments.flatten = pre ++ post → FirstEmptyLine pre →
    ReadsBody ((fresh segments).run events).2 →
      bodyRead ((fresh segments).run events).2 <+: post

/-! ## Runs -/

theorem acts_nil (self : HTTPRequest) : self.acts [] = (self, []) := rfl

theorem acts_cons (self : HTTPRequest) (a : Act) (rest : List Act) :
    self.acts (a :: rest) = (((self.act a).1.acts rest).1,
      (self.act a).2 :: ((self.act a).1.acts rest).2) := rfl

theorem run_cons (self : HTTPRequest) (e : Event) (es : List Event) :
    self.run (e :: es) = (((self.handle e).1.run es).1,
      (self.handle e).2 ++ ((self.handle e).1.run es).2) := rfl

theorem run_append (self : HTTPRequest) (es es' : List Event) :
    self.run (es ++ es') = (((self.run es).1.run es').1,
      (self.run es).2 ++ ((self.run es).1.run es').2) := by
  induction es generalizing self with
  | nil => rfl
  | cons e es ih =>
      rw [List.cons_append, run_cons, ih, run_cons, List.append_assoc]

theorem flatten_sockRead (segments : List (List UInt8)) :
    (sockRead segments).1 ++ (sockRead segments).2.flatten = segments.flatten := by
  cases segments with
  | nil => rfl
  | cons s rest => rfl

/-! ## What holds all along -/

/-- The parser has met its limit: it will not be ready. -/
def Spent (parser : HTTPHeadersParser) : Prop :=
  parser.ready = false ∧ parser.limit ≤ parser.count + 1

theorem Spent.write {parser : HTTPHeadersParser} (h : Spent parser) (data : List UInt8) :
    Spent (parser.write data).1 := by
  rw [HTTPHeadersParser.write, if_neg (by simp [h.1])]
  cases data with
  | nil => exact h
  | cons p data =>
      rw [HTTPHeadersParser.writeLoop, if_pos h.2]
      exact ⟨h.1, by have := h.2; simp only; omega⟩

/-- A parser that has met its limit is not ready, whatever it is fed. -/
theorem Spent.feed {parser : HTTPHeadersParser} (h : Spent parser)
    (segments : List (List UInt8)) : (parser.feed segments).1.ready = false := by
  induction segments generalizing parser with
  | nil => exact h.1
  | cons segment rest ih =>
      have hwrite := h.write segment
      rw [HTTPHeadersParser.feed, Incremental.feed, h.1, if_neg Bool.false_ne_true, hwrite.1,
        if_neg Bool.false_ne_true]
      exact ih hwrite

/-- A `write` that leaves bytes behind and no request has met the limit. -/
theorem spent_of_rest {parser : HTTPHeadersParser} (data : List UInt8)
    (hready : parser.ready = false) (hnot : (parser.write data).1.ready = false)
    (hrest : (parser.write data).2 ≠ []) : Spent (parser.write data).1 := by
  rw [HTTPHeadersParser.write_eq_consume _ _ hready] at hnot hrest ⊢
  induction data generalizing parser with
  | nil => exact absurd rfl hrest
  | cons p data ih =>
      rw [Incremental.consume, HTTPHeadersParser.next] at hnot hrest ⊢
      by_cases hlim : parser.limit ≤ parser.count + 1
      · simp only [hlim, if_true] at hnot hrest ⊢
        exact ⟨hnot, by simp only; omega⟩
      · simp only [hlim, if_false] at hnot hrest ⊢
        cases htake : (parser.take p).ready with
        | true => simp [htake] at hnot
        | false =>
            simp only [htake, Bool.false_eq_true, if_false] at hnot hrest ⊢
            exact ih htake hnot hrest

/-- What is true of a request and of the body its delegate has, on the segments it
started with.  Before the headers are complete the parser is in the middle of its
stream, or spent; afterwards what was read and what the socket still has is the stream
without the bytes `body` took with the blank line. -/
def Consistent (segments : List (List UInt8)) (self : HTTPRequest) : Body → Prop
  | .before => self.state = .PARSING_HEADERS ∧ self.parser.ready = false ∧
      (Spent self.parser ∨ self.body = [] ∧ self.parser.feed self.sock =
        (HTTPHeadersParser.fresh .REQUEST HTTPHeadersParser.defaultLimit).feed segments)
  | .reading bytes => self.state = .READING_BODY ∧ ∃ parser left later,
      (HTTPHeadersParser.fresh .REQUEST HTTPHeadersParser.defaultLimit).feed segments =
        (parser, left :: later) ∧ parser.ready = true ∧
      bytes ++ self.sock.flatten = later.flatten
  | .closed bytes => ∃ parser left later,
      (HTTPHeadersParser.fresh .REQUEST HTTPHeadersParser.defaultLimit).feed segments =
        (parser, left :: later) ∧ parser.ready = true ∧ bytes <+: later.flatten

theorem fresh_consistent (segments : List (List UInt8)) :
    Consistent segments (fresh segments) .before :=
  ⟨rfl, rfl, Or.inr ⟨rfl, rfl⟩⟩

variable {segments : List (List UInt8)} {self : HTTPRequest} {b : Body}

/-- After `reset` nothing changes what was read before it. -/
theorem closed_foldl (bytes : List UInt8) (os : List Obs) :
    os.foldl Body.next (.closed bytes) = .closed bytes := by
  induction os with
  | nil => rfl
  | cons o os ih =>
      have hnext : Body.next (.closed bytes) o = .closed bytes := by cases o <;> rfl
      rw [List.foldl_cons, hnext, ih]

/-- A callback of a delegate that has the body. -/
theorem acts_consistent {bytes : List UInt8} (delegate : List Act)
    (h : Consistent segments self (.reading bytes)) :
    Consistent segments (self.acts delegate).1
      ((self.acts delegate).2.foldl Body.next (.reading bytes)) := by
  induction delegate generalizing self bytes with
  | nil => exact h
  | cons a rest ih =>
      rw [acts_cons, List.foldl_cons]
      obtain ⟨hstate, parser, left, later, hfeed, hready, hbytes⟩ := h
      cases a with
      | read =>
          refine ih ⟨hstate, parser, left, later, hfeed, hready, ?_⟩
          rw [← hbytes, ← flatten_sockRead self.sock, List.append_assoc]
          rfl
      | write data sent => exact ih ⟨hstate, parser, left, later, hfeed, hready, hbytes⟩
      | reset =>
          show Consistent segments _ (List.foldl Body.next (.closed bytes) _)
          rw [closed_foldl]
          exact ⟨parser, left, later, hfeed, hready, hbytes ▸ List.prefix_append _ _⟩

/-- The parser of a request whose headers are complete is not looked at. -/
theorem Consistent.replaceParser {b : Body} (h : Consistent segments self b) (hb : b ≠ .before)
    (parser : HTTPHeadersParser) : Consistent segments { self with parser := parser } b := by
  cases b with
  | before => exact absurd rfl hb
  | reading bytes => exact h
  | closed bytes => exact h

theorem foldl_ne_before (os : List Obs) {b : Body} (hb : b ≠ .before) :
    os.foldl Body.next b ≠ .before := by
  induction os generalizing b with
  | nil => exact hb
  | cons o os ih =>
      refine ih ?_
      cases b with
      | before => exact absurd rfl hb
      | reading bytes => cases o <;> simp [Body.next]
      | closed bytes => cases o <;> simp [Body.next]

/-- What comes first is without a read before the first `onHeaders`, too. -/
theorem ReadsBody.left {os os' : List Obs} (h : ReadsBody (os ++ os')) : ReadsBody os := by
  induction os with
  | nil => trivial
  | cons o os ih =>
      cases o with
      | onHeaders parser => trivial
      | read bytes => exact h
      | onCanRead | onCanWrite | onDisconnect | wrote bytes | reset => exact ih h

/-- So is what comes behind it, as long as there has been no `onHeaders`. -/
theorem ReadsBody.right {os os' : List Obs} (h : ReadsBody (os ++ os'))
    (hbefore : os.foldl Body.next .before = .before) : ReadsBody os' := by
  induction os with
  | nil => exact h
  | cons o os ih =>
      cases o with
      | onHeaders parser => exact absurd hbefore (foldl_ne_before os (by simp [Body.next]))
      | read bytes => exact h.elim
      | onCanRead | onCanWrite | onDisconnect | wrote bytes | reset => exact ih h hbefore

/-- A program that does not read leaves a request alone whose headers are incomplete. -/
theorem acts_before (delegate : List Act) (h : Consistent segments self .before)
    (hreads : ReadsBody (self.acts delegate).2) :
    Consistent segments (self.acts delegate).1
      ((self.acts delegate).2.foldl Body.next .before) := by
  induction delegate generalizing self with
  | nil => exact h
  | cons a rest ih =>
      rw [acts_cons, List.foldl_cons]
      rw [acts_cons] at hreads
      cases a with
      | read => exact hreads.elim
      | write data sent => exact ih h hreads
      | reset => exact ih ⟨rfl, h.2⟩ hreads

/-- `onCanRead` while the headers are incomplete. -/
theorem onCanRead_before (delegate : List Act) (h : Consistent segments self .before) :
    Consistent segments (self.onCanRead delegate).1
      ((self.onCanRead delegate).2.foldl Body.next .before) := by
  obtain ⟨hstate, hready, hparser⟩ := h
  have hpar : self.state ≠ .READING_BODY := by simp [hstate]
  unfold onCanRead
  rw [if_pos hpar]
  rcases hparser with hspent | ⟨hbody, hfeed⟩
  · -- the limit is met: the parser takes another byte and stays as it is
    rcases hsrc : (if self.body = [] then sockRead self.sock else (self.body, self.sock)) with
      ⟨body, sock⟩
    have hspent' := hspent.write body
    simp only [hspent'.1, Bool.false_eq_true, if_false]
    exact ⟨hstate, hspent'.1, Or.inl hspent'⟩
  · rw [if_pos hbody]
    rcases hsock : self.sock with _ | ⟨segment, later⟩
    · -- nothing to read
      have hwrite : self.parser.write [] = (self.parser, []) := by
        rw [HTTPHeadersParser.write, if_neg (by simp [hready])]
        rfl
      simp only [sockRead, hwrite, hready, Bool.false_eq_true, if_false]
      exact ⟨hstate, hready, Or.inr ⟨rfl, hsock ▸ hfeed⟩⟩
    · rw [hsock, HTTPHeadersParser.feed, Incremental.feed, hready,
        if_neg Bool.false_ne_true] at hfeed
      rcases hwrite : self.parser.write segment with ⟨parser, left⟩
      simp only [hwrite] at hfeed
      simp only [sockRead, hwrite]
      cases hnow : parser.ready with
      | true =>
          -- the blank line is in this segment: what is left of it stays in `body`
          rw [hnow, if_pos rfl] at hfeed
          have hreading : Consistent segments (⟨later, left, parser, .READING_BODY⟩ : HTTPRequest)
              (.reading []) := ⟨rfl, parser, left, later, hfeed.symm, hnow, rfl⟩
          exact (acts_consistent delegate hreading).replaceParser
            (foldl_ne_before _ (by simp)) _
      | false =>
          rw [hnow, if_neg Bool.false_ne_true] at hfeed
          refine ⟨hstate, hnow, ?_⟩
          by_cases hleft : left = []
          · exact Or.inr ⟨hleft, hfeed⟩
          · have hspent := spent_of_rest segment hready (by rw [hwrite]; exact hnow)
              (by rw [hwrite]; exact hleft)
            rw [hwrite] at hspent
            exact Or.inl hspent

/-- Every event keeps the request consistent. -/
theorem handle_consistent (e : Event) (h : Consistent segments self b)
    (hreads : b = .before → ReadsBody (self.handle e).2) :
    Consistent segments (self.handle e).1 ((self.handle e).2.foldl Body.next b) := by
  cases b with
  | before =>
      have hstate : self.state ≠ .READING_BODY := by simp [h.1]
      cases e with
      | canRead delegate => exact onCanRead_before delegate h
      | canWrite delegate =>
          rw [handle, onCanWrite, if_neg hstate]
          exact h
      | disconnect delegate => exact acts_before delegate h (hreads rfl)
      | outside program => exact acts_before program h (hreads rfl)
  | reading bytes =>
      have hstate : self.state = .READING_BODY := h.1
      cases e with
      | canRead delegate =>
          rw [handle, onCanRead, if_neg (by simp [hstate])]
          exact acts_consistent delegate h
      | canWrite delegate =>
          rw [handle, onCanWrite, if_pos hstate]
          exact acts_consistent delegate h
      | disconnect delegate => exact acts_consistent delegate h
      | outside program => exact acts_consistent program h
  | closed bytes =>
      rw [closed_foldl]
      exact h

theorem run_consistent (events : List Event) (h : Consistent segments self b)
    (hreads : b = .before → ReadsBody (self.run events).2) :
    Consistent segments (self.run events).1 ((self.run events).2.foldl Body.next b) := by
  induction events generalizing self b with
  | nil => exact h
  | cons e es ih =>
      rw [run_cons] at hreads
      rw [run_cons, List.foldl_append]
      refine ih (handle_consistent e h fun hb => (hreads hb).left) fun hb => ?_
      have hbefore : b = .before := by
        by_contra hne
        exact foldl_ne_before _ hne hb
      exact (hreads hbefore).right (hbefore ▸ hb)

/-- What was read is taken from the segments behind the one with the blank line. -/
theorem Consistent.bytes_starts (h : Consistent segments self b) :
    b = .before ∨ ∃ parser left later,
      (HTTPHeadersParser.fresh .REQUEST HTTPHeadersParser.defaultLimit).feed segments =
        (parser, left :: later) ∧ parser.ready = true ∧ b.bytes <+: later.flatten := by
  cases b with
  | before => exact Or.inl rfl
  | reading bytes =>
      obtain ⟨-, parser, left, later, hfeed, hready, hbytes⟩ := h
      exact Or.inr ⟨parser, left, later, hfeed, hready, hbytes ▸ List.prefix_append _ _⟩
  | closed bytes => exact Or.inr h

/-! ## Reading everything -/

/-- One `onCanRead` for each segment completes the headers, when they can be. -/
theorem run_canRead (self : HTTPRequest) {parser : HTTPHeadersParser} {left : List UInt8}
    {later : List (List UInt8)}
    (hstate : self.state = .PARSING_HEADERS) (hready : self.parser.ready = false)
    (hbody : self.body = []) (hfeed : self.parser.feed self.sock = (parser, left :: later))
    (hdone : parser.ready = true) : ∃ n,
      (self.run (List.replicate n (.canRead []))).1 = ⟨later, left,
        .fresh .REQUEST HTTPHeadersParser.defaultLimit, .READING_BODY⟩ ∧
      (self.run (List.replicate n (.canRead []))).2 = [.onHeaders parser] := by
  obtain ⟨sock, body, q, state⟩ := self
  simp only at hstate hready hbody hfeed
  subst hstate hbody
  induction sock generalizing q with
  | nil => simp [HTTPHeadersParser.feed, Incremental.feed] at hfeed
  | cons segment rest ih =>
      rw [HTTPHeadersParser.feed, Incremental.feed, hready, if_neg Bool.false_ne_true] at hfeed
      rcases hwrite : q.write segment with ⟨q', left'⟩
      simp only [hwrite] at hfeed
      have hhandle : ∀ r, q'.ready = r →
          handle ⟨segment :: rest, [], q, .PARSING_HEADERS⟩ (.canRead []) =
            if r then (⟨rest, left', .fresh .REQUEST HTTPHeadersParser.defaultLimit,
              .READING_BODY⟩, [.onHeaders q'])
            else (⟨rest, left', q', .PARSING_HEADERS⟩, []) := by
        intro r hr
        simp only [handle, onCanRead, sockRead, hwrite, hr, acts_nil, if_true, ne_eq, reduceCtorEq,
          not_false_eq_true]
      cases hnow : q'.ready with
      | true =>
          rw [hnow, if_pos rfl] at hfeed
          obtain ⟨rfl, hrest⟩ := Prod.mk.inj hfeed
          obtain ⟨rfl, rfl⟩ := List.cons.inj hrest
          refine ⟨1, ?_, ?_⟩
          · rw [List.replicate_one, run_cons, hhandle true hnow]
            rfl
          · rw [List.replicate_one, run_cons, hhandle true hnow]
            rfl
      | false =>
          rw [hnow, if_neg Bool.false_ne_true] at hfeed
          -- nothing was left of the segment: a parser past its limit is never ready
          have hleft : left' = [] := by
            by_contra hne
            have hspent := spent_of_rest segment hready (by rw [hwrite]; exact hnow)
              (by rw [hwrite]; exact hne)
            rw [hwrite] at hspent
            have hnever := hspent.feed rest
            rw [HTTPHeadersParser.feed, hfeed, hdone] at hnever
            simp at hnever
          subst hleft
          obtain ⟨n, hfst, hsnd⟩ := ih q' hnow hfeed
          refine ⟨n + 1, ?_, ?_⟩
          · rw [List.replicate_succ, run_cons, hhandle false hnow]
            exact hfst
          · rw [List.replicate_succ, run_cons, hhandle false hnow]
            exact hsnd

/-- As many reads as there are segments take them all. -/
theorem acts_read (self : HTTPRequest) (bytes : List UInt8) :
    (self.acts (List.replicate self.sock.length .read)).2.foldl Body.next (.reading bytes) =
      .reading (bytes ++ self.sock.flatten) := by
  obtain ⟨sock, body, q, state⟩ := self
  induction sock generalizing bytes with
  | nil => simp [acts]
  | cons segment rest ih =>
      have hnext := ih (bytes ++ segment)
      rw [List.length_cons, List.replicate_succ, acts_cons, List.foldl_cons, List.flatten_cons,
        ← List.append_assoc]
      exact hnext

/-! ## The result -/

/-- A stream has one first empty line. -/
theorem firstEmptyLine_unique {stream pre pre' post post' : List UInt8}
    (h : stream = pre ++ post) (h' : stream = pre' ++ post') (hpre : FirstEmptyLine pre)
    (hpre' : FirstEmptyLine pre') : post = post' := by
  have hsame : pre = pre' := by
    rcases List.prefix_or_prefix_of_prefix ⟨post, h.symm⟩ ⟨post', h'.symm⟩ with hp | hp
    · exact hpre'.2 pre hp hpre.1
    · exact (hpre.2 pre' hp hpre'.1).symm
  subst hsame
  exact List.append_cancel_left (h.symm.trans h')

/-- **When no body byte is lost.**  For every segmentation: whatever the events are and
whatever a delegate does that reads nothing before the first `onHeaders`, the body bytes read
are a prefix of the stream behind the first empty line, exactly when the segments behind the
one with that line are a prefix of it. -/
theorem body_exact_iff (segments : List (List UInt8)) :
    BodyExact segments ↔ ∀ parser left later,
      (HTTPHeadersParser.fresh .REQUEST HTTPHeadersParser.defaultLimit).feed segments =
        (parser, left :: later) → parser.ready = true →
      later.flatten <+: left ++ later.flatten := by
  constructor
  · -- a delegate that reads everything gets the later segments
    intro hexact parser left later hfeed hready
    obtain ⟨n, hfst, hsnd⟩ := run_canRead (fresh segments) rfl rfl rfl hfeed hready
    have hall := hexact (List.replicate n (.canRead []) ++
      [.outside (List.replicate later.length .read)])
    rw [run_append, hfst, hsnd, bodyRead, List.foldl_append] at hall
    have hread := acts_read ⟨later, left, .fresh .REQUEST HTTPHeadersParser.defaultLimit,
      .READING_BODY⟩ []
    have hrun : (run ⟨later, left, .fresh .REQUEST HTTPHeadersParser.defaultLimit,
        .READING_BODY⟩ [.outside (List.replicate later.length .read)]).2 =
        (acts ⟨later, left, .fresh .REQUEST HTTPHeadersParser.defaultLimit, .READING_BODY⟩
          (List.replicate later.length .read)).2 := by
      simp [run, handle]
    have hheaders : [Obs.onHeaders parser].foldl Body.next .before = .reading [] := rfl
    rw [hrun, hheaders, hread] at hall
    have hline := HTTPHeadersParser.feed_ready .REQUEST HTTPHeadersParser.defaultLimit segments
    rw [hfeed] at hline
    obtain ⟨pre, hpre, hfirst⟩ := hline hready
    exact hall pre (left :: later).flatten hpre hfirst trivial
  · intro hcond events pre post hpost hpre hreads
    rcases (run_consistent events (fresh_consistent segments) fun _ => hreads).bytes_starts with
      hbefore | ⟨parser, left, later, hfeed, hready, hbytes⟩
    · rw [bodyRead, hbefore]
      exact List.nil_prefix
    · have hline := HTTPHeadersParser.feed_ready .REQUEST HTTPHeadersParser.defaultLimit segments
      rw [hfeed] at hline
      obtain ⟨pre', hpre', hfirst⟩ := hline hready
      rw [firstEmptyLine_unique hpost hpre' hpre hfirst]
      exact hbytes.trans (hcond parser left later hfeed hready)

/-- The request `GET / ` with two body bytes `x` and `y`, the first of them in the segment
of the blank line: `read` returns `y`. -/
theorem body_byte_skipped : ¬ BodyExact
    [[71, 69, 84, 32, 47, 13, 10, 13, 10, 120], [121]] := by
  intro hexact
  have hline := HTTPHeadersParser.feed_ready .REQUEST HTTPHeadersParser.defaultLimit
    [[71, 69, 84, 32, 47, 13, 10, 13, 10]] (by decide)
  obtain ⟨pre, hpre, hfirst⟩ := hline
  have hrest : ((HTTPHeadersParser.fresh .REQUEST HTTPHeadersParser.defaultLimit).feed
      [[71, 69, 84, 32, 47, 13, 10, 13, 10]]).2.flatten = [] := by decide
  rw [hrest, List.append_nil] at hpre
  subst hpre
  have hread := hexact [.canRead [], .outside [.read]] _ [120, 121] rfl hfirst trivial
  revert hread
  decide

end HTTPRequest

end Craplib
