import Craplib.Http.Pipeline
import Craplib.Http.RoundTrip

/-!
# Requests from a writer to a server

A client composes its requests with one `HTTPHeadersWriter`, which `getData` empties each time;
the blocks go over a connection one behind the other and come out cut into any segments; on the
other side an `HTTPRequest` parses them, for a delegate that calls `reset` from every
`onHeaders` and never reads itself.

`requests` is what the program asked the writer for.  `requests_arrive` says what the delegate is
told of it: each request once, in order, and all of them when as many calls of `onCanRead` have
been made as there are segments and requests.  A parser drops the last line of every block, so
a request comes with its method, its query and its version and with all its headers but the last
one in the order of the map; and one without headers, whose last line is the request line, comes
with nothing at all (`Request.told`).
-/

namespace Craplib

open HTTPHeadersParser (defaultLimit parseAll parseFrom)

/-- What a program does with a writer of requests. -/
inductive HTTPHeadersWriter.Op
  | addHeader (name value : Str)
  | setRequest (method : HTTPMethod) (query : Str) (version : HTTPVersion)
  | getData
  deriving DecidableEq, Repr

namespace HTTPHeadersWriter

/-- One operation, and the bytes that it hands out; an exception hands out none. -/
def apply (self : HTTPHeadersWriter) : Op → HTTPHeadersWriter × List UInt8
  | .addHeader name value => (self.addHeader name value, [])
  | .setRequest method query version => (self.setRequest method query version, [])
  | .getData =>
    match self.getData with
    | (self, .ok block) => (self, block)
    | (self, .error _) => (self, [])

/-- The blocks that a program gets, one behind the other. -/
def stream (self : HTTPHeadersWriter) : List Op → List UInt8
  | [] => []
  | op :: ops => (self.apply op).2 ++ (self.apply op).1.stream ops

end HTTPHeadersWriter

/-! ## What is asked for -/

/-- A request that a program has asked for. -/
structure Request where
  method : HTTPMethod
  query : Str
  version : HTTPVersion
  headers : HeaderMap

/-- What a program has asked for since the last block: the request line and the headers. -/
structure Draft where
  line : Option (HTTPMethod × Str × HTTPVersion)
  added : List (Str × Str)

namespace Draft

/-- Nothing yet. -/
def empty : Draft := ⟨none, []⟩

/-- The request that a program gets when it has a request line. -/
def request (self : Draft) : Option Request :=
  self.line.map fun line => ⟨line.1, line.2.1, line.2.2, SortedMap.empty.insertAll self.added⟩

/-- The requests that a program asks for, one for each `getData` with a request line; a
`getData` without one changes nothing. -/
def requests (self : Draft) : List HTTPHeadersWriter.Op → List Request
  | [] => []
  | .addHeader name value :: ops =>
    requests { self with added := self.added ++ [(name, value)] } ops
  | .setRequest method query version :: ops =>
    requests { self with line := some (method, query, version) } ops
  | .getData :: ops =>
    match self.request with
    | none => requests self ops
    | some r => r :: requests empty ops

/-- The writer that has been asked for it. -/
def writer (self : Draft) : HTTPHeadersWriter where
  firstLine := self.line.elim [] fun line => requestLine line.1 line.2.1 line.2.2 ++ crlf
  headers := SortedMap.empty.insertAll self.added

end Draft

namespace Request

/-- The block of a request. -/
def text (r : Request) : List UInt8 :=
  requestLine r.method r.query r.version ++ crlf ++
    r.headers.entries.flatMap HTTPHeadersWriter.headerLine ++ crlf

/-- A request that can be written in lines, below the limit of the parser. -/
structure Good (r : Request) : Prop where
  query : GoodQuery r.query
  headers : ∀ e ∈ r.headers.entries, GoodHeader e
  fits : (r.text.length : ℤ) < defaultLimit

/-- What a delegate is told of a request: the last header is missing, and without headers the
request line is, too. -/
def told (r : Request) : Bool × Str × Str × Str × ℤ × Str × HeaderMap :=
  let shown := fun s : Str => if r.headers.entries = [] then [] else s
  (true, shown (methodToString r.method), shown r.query, shown (versionToString r.version), 0, [],
    SortedMap.empty.insertAll r.headers.entries.dropLast)

end Request

/-! ## The writer -/

namespace Draft

variable {d : Draft} {ops : List HTTPHeadersWriter.Op}

theorem writer_empty : empty.writer = HTTPHeadersWriter.fresh := rfl

/-- `getData` without a request line throws. -/
theorem apply_getData_none (h : d.request = none) : d.writer.apply .getData = (d.writer, []) := by
  have hline : d.line = none := Option.map_eq_none_iff.mp h
  have hfirst : d.writer.firstLine = [] := by rw [writer, hline, Option.elim_none]
  rw [HTTPHeadersWriter.apply, HTTPHeadersWriter.getData, if_pos hfirst]

/-- `getData` with a request line hands out the block of the request, and nothing of it stays. -/
theorem apply_getData_some {r : Request} (h : d.request = some r)
    (hfits : (r.text.length : ℤ) < defaultLimit) :
    d.writer.apply .getData = (empty.writer, r.text) := by
  obtain ⟨line, hline, rfl⟩ := Option.map_eq_some_iff.mp h
  have hfirst : d.writer.firstLine = requestLine line.1 line.2.1 line.2.2 ++ crlf := by
    rw [writer, hline, Option.elim_some]
  have hne : d.writer.firstLine ≠ [] := by
    rw [hfirst]
    simp [crlf]
  have htext : d.writer.text = Request.text ⟨line.1, line.2.1, line.2.2,
      SortedMap.empty.insertAll d.added⟩ := by
    rw [HTTPHeadersWriter.text, hfirst]
    rfl
  rw [← htext] at hfits ⊢
  have hsize : HTTPHeadersWriter.intOfSize d.writer.text.length = d.writer.text.length := by
    unfold HTTPHeadersWriter.intOfSize
    unfold defaultLimit at hfits
    rw [Int.bmod_def]
    omega
  rw [HTTPHeadersWriter.apply, HTTPHeadersWriter.getData, if_neg hne]
  simp only [hsize, Int.not_ofNat_neg, if_false, Int.toNat_natCast, List.take_length]
  rfl

/-- What is asked for next. -/
theorem apply_addHeader (name value : Str) : d.writer.apply (.addHeader name value) =
    (writer { d with added := d.added ++ [(name, value)] }, []) := by
  have hadded : SortedMap.insertAll SortedMap.empty (d.added ++ [(name, value)]) =
      (SortedMap.empty.insertAll d.added : HeaderMap).insertNew name value :=
    List.foldl_append
  exact Prod.ext (congrArg (HTTPHeadersWriter.mk _) hadded.symm) rfl

/-- **The stream of a writer** is the blocks of the requests that it was asked for. -/
theorem stream_writer (h : ∀ r ∈ d.requests ops, (r.text.length : ℤ) < defaultLimit) :
    d.writer.stream ops = (d.requests ops).flatMap Request.text := by
  induction ops generalizing d with
  | nil => rfl
  | cons op ops ih =>
      rw [HTTPHeadersWriter.stream]
      cases op with
      | addHeader name value =>
          rw [apply_addHeader]
          exact ih h
      | setRequest method query version =>
          exact ih (d := { d with line := some (method, query, version) }) h
      | getData =>
          rw [requests] at h ⊢
          cases hrequest : d.request with
          | none =>
              rw [hrequest] at h
              rw [apply_getData_none hrequest]
              exact ih h
          | some r =>
              rw [hrequest] at h
              rw [apply_getData_some hrequest (h r List.mem_cons_self)]
              exact congrArg (r.text ++ ·) (ih fun x hx => h x (List.mem_cons_of_mem _ hx))

end Draft

/-! ## The parser -/

namespace HTTPHeadersParser

variable {r : Request}

/-- The block of a request makes a fresh parser ready, and nothing of it is left. -/
theorem write_text (h : r.Good) :
    ((fresh .REQUEST defaultLimit).write r.text).1.visible = r.told ∧
      ((fresh .REQUEST defaultLimit).write r.text).2 = [] := by
  have hvisible := write_block h.query h.headers h.fits
  refine ⟨hvisible, ?_⟩
  have hready : ((fresh .REQUEST defaultLimit).write r.text).1.ready = true :=
    congrArg Prod.fst hvisible
  obtain ⟨used, hused, hfirst⟩ := write_ready .REQUEST defaultLimit hready
  have hpre : used <+: r.text := ⟨_, hused.symm⟩
  have hall : used = r.text := by
    by_contra hne
    exact not_endsEmptyLine_of_prefix h.query h.headers hpre hne hfirst.1
  rw [hall] at hused
  exact List.append_right_eq_self.mp hused.symm

/-- The sequential parse of a stream whose beginning makes a fresh parser ready. -/
theorem parseAll_append {now : List UInt8}
    (hnow : ((fresh .REQUEST defaultLimit).write now).1.ready = true) (later : List UInt8) :
    parseAll (now ++ later) = ((fresh .REQUEST defaultLimit).write now).1 ::
      parseAll (((fresh .REQUEST defaultLimit).write now).2 ++ later) := by
  have hfresh : (fresh .REQUEST defaultLimit).ready = false := rfl
  rw [← parseFrom_fresh]
  rcases HTTPRequest.parseFrom_append hfresh now later with
    ⟨-, hparse⟩ | ⟨hspent, -⟩ | ⟨hnot, -, -⟩
  · exact hparse
  · rw [hspent.1] at hnow
    cases hnow
  · rw [hnot] at hnow
    cases hnow

theorem parseAll_of_not_ready {now : List UInt8}
    (hnow : ((fresh .REQUEST defaultLimit).write now).1.ready ≠ true) : parseAll now = [] := by
  rw [parseAll, dif_neg hnow]

/-- The blocks of good requests are parsed one by one. -/
theorem parseAll_texts {rs : List Request} (h : ∀ r ∈ rs, r.Good) :
    (parseAll (rs.flatMap Request.text)).map visible = rs.map Request.told := by
  induction rs with
  | nil => rw [List.flatMap_nil, parseAll_of_not_ready (by decide), List.map_nil, List.map_nil]
  | cons r rs ih =>
      obtain ⟨hvisible, hleft⟩ := write_text (h r List.mem_cons_self)
      rw [List.flatMap_cons, parseAll_append (congrArg Prod.fst hvisible), hleft, List.nil_append,
        List.map_cons, List.map_cons, hvisible, ih fun x hx => h x (List.mem_cons_of_mem _ hx)]

/-- What is parsed of the beginning of a stream is the beginning of what is parsed of it. -/
theorem parseAll_prefix {now stream : List UInt8} (h : now <+: stream) :
    parseAll now <+: parseAll stream := by
  obtain ⟨later, rfl⟩ := h
  induction hn : now.length using Nat.strongRecOn generalizing now with
  | ind n ih =>
      by_cases hnow : ((fresh .REQUEST defaultLimit).write now).1.ready = true
      · have hshorter := length_write_lt rfl hnow
        have hself := parseAll_append hnow []
        rw [List.append_nil, List.append_nil] at hself
        rw [hself, parseAll_append hnow, List.cons_prefix_cons]
        exact ⟨rfl, ih _ (hn ▸ hshorter) rfl⟩
      · rw [parseAll_of_not_ready hnow]
        exact List.nil_prefix

end HTTPHeadersParser

/-! ## The server -/

namespace HTTPRequest

variable {stream : List UInt8} {delivered : List HTTPHeadersParser} {self : HTTPRequest}

/-- The events that call `onCanRead`. -/
def Event.isCanRead : Event → Bool
  | .canRead _ => true
  | _ => false

/-- How many calls of `onCanRead` there are left to make: one for each segment of the socket and
each header set, and one for what is in `body`. -/
def callsLeft (stream : List UInt8) (delivered : List HTTPHeadersParser) (self : HTTPRequest) : ℕ :=
  self.sock.length + ((parseAll stream).length - delivered.length) +
    if self.body = [] then 0 else 1

theorem parseFrom_nil {parser : HTTPHeadersParser} (hready : parser.ready = false) :
    parser.parseFrom [] = [] := by
  have hwrite : parser.write [] = (parser, []) := by
    rw [HTTPHeadersParser.write, if_neg (by simp [hready])]
    rfl
  rw [parseFrom, hwrite, if_neg (by simp [hready])]

/-- **Every `onCanRead` brings the end nearer**, as long as there is a header set to come. -/
theorem onCanRead_callsLeft {delegate : List Act} (hresets : .reset ∈ delegate)
    (hunread : .read ∉ delegate) (h : Framed stream delivered self)
    (hmore : delivered.length < (parseAll stream).length) :
    callsLeft stream (delivered ++ headerSets (self.onCanRead delegate).2)
      (self.onCanRead delegate).1 < callsLeft stream delivered self := by
  obtain ⟨hstate, ⟨hready, hparse⟩ | ⟨-, hparse⟩⟩ := h
  swap
  · rw [hparse] at hmore
    exact absurd hmore (lt_irrefl _)
  have hsource := source_flatten self
  unfold onCanRead callsLeft
  rw [if_pos (by simp [hstate])]
  rcases hsrc : (if self.body = [] then sockRead self.sock else (self.body, self.sock)) with
    ⟨now, sock⟩
  -- the bytes come from a segment or from `body`
  have hpaid : sock.length + 1 = self.sock.length + if self.body = [] then 0 else 1 := by
    by_cases hbody : self.body = []
    · rw [if_pos hbody] at hsrc ⊢
      cases hsock : self.sock with
      | nil =>
          rw [hbody, hsock, List.flatten_nil, List.append_nil, parseFrom_nil hready,
            List.append_nil] at hparse
          rw [hparse] at hmore
          exact absurd hmore (lt_irrefl _)
      | cons segment rest =>
          rw [hsock, sockRead] at hsrc
          rw [← (Prod.mk.inj hsrc).2, List.length_cons, Nat.add_zero]
    · rw [if_neg hbody] at hsrc ⊢
      rw [(Prod.mk.inj hsrc).2]
  rw [hsrc] at hsource
  simp only at hsource ⊢
  rw [← hsource] at hparse
  rcases parseFrom_append hready now sock.flatten with
    ⟨hnow, hrest⟩ | ⟨hspent, hrest⟩ | ⟨hnow, hleft, hrest⟩
  · rw [if_pos hnow, headerSets_onHeaders, headerSets_acts, acts_unread _ hunread,
      if_pos hresets, List.length_append, List.length_singleton]
    have hflag : (if ((self.parser.write now).2 : List UInt8) = [] then 0 else 1) ≤ 1 := by
      split <;> omega
    simp only at hflag ⊢
    omega
  · rw [hrest, List.append_nil] at hparse
    rw [hparse] at hmore
    exact absurd hmore (lt_irrefl _)
  · rw [if_neg (by simp [hnow])]
    simp only [hleft, if_true, headerSets_nil, List.append_nil]
    omega

/-- An event that does not call `onCanRead` changes nothing while headers are parsed. -/
theorem handle_other {e : Event} (hother : e.isCanRead = false) (he : e.Resets)
    (h : Framed stream delivered self) :
    (self.handle e).1 = self ∧ headerSets (self.handle e).2 = [] := by
  have hstate : self.state ≠ .READING_BODY := by simp [h.1]
  cases e with
  | canRead delegate => cases hother
  | canWrite delegate =>
      rw [handle, onCanWrite, if_neg hstate]
      exact ⟨rfl, rfl⟩
  | disconnect delegate => exact ⟨acts_framed he h, headerSets_acts self delegate⟩
  | outside program => exact ⟨acts_framed he h, headerSets_acts self program⟩

/-- The header sets delivered are a beginning of those of the stream. -/
theorem Framed.delivered_begins (h : Framed stream delivered self) :
    delivered <+: parseAll stream := by
  obtain ⟨-, ⟨-, hparse⟩ | ⟨-, hparse⟩⟩ := h
  · rw [hparse]
    exact List.prefix_append _ _
  · exact hparse ▸ List.prefix_rfl

/-- Where none is left to come, none comes. -/
theorem run_complete {events : List Event} (he : ∀ e ∈ events, e.Resets)
    (h : Framed stream delivered self) (hnone : (parseAll stream).length ≤ delivered.length) :
    delivered ++ headerSets (self.run events).2 = parseAll stream := by
  refine (run_framed he h).delivered_begins.eq_of_length_le ?_
  rw [List.length_append]
  omega

/-- **After enough calls of `onCanRead`** all header sets have been delivered. -/
theorem run_delivers {events : List Event} (he : ∀ e ∈ events, e.Resets)
    (h : Framed stream delivered self)
    (henough : callsLeft stream delivered self ≤ events.countP Event.isCanRead) :
    delivered ++ headerSets (self.run events).2 = parseAll stream := by
  induction events generalizing self delivered with
  | nil =>
      rw [List.countP_nil, callsLeft] at henough
      exact run_complete he h (by omega)
  | cons e es ih =>
      rcases Nat.lt_or_ge delivered.length (parseAll stream).length with hmore | hnone
      swap
      · exact run_complete he h hnone
      have hes : ∀ x ∈ es, x.Resets := fun x hx => he x (List.mem_cons_of_mem _ hx)
      have hnext := handle_framed (he e List.mem_cons_self) h
      rw [run_cons, headerSets_append, ← List.append_assoc]
      refine ih hes hnext ?_
      cases e with
      | canRead delegate =>
          have hfewer := onCanRead_callsLeft (he _ List.mem_cons_self).1
            (he _ List.mem_cons_self).2 h hmore
          rw [List.countP_cons_of_pos rfl] at henough
          rw [handle]
          omega
      | canWrite delegate | disconnect delegate | outside program =>
          obtain ⟨hsame, hnone⟩ := handle_other rfl (he _ List.mem_cons_self) h
          rw [hsame, hnone, List.append_nil]
          rwa [List.countP_cons_of_neg (by simp [Event.isCanRead])] at henough

/-- **The requests of a writer arrive.**  Whatever a program asks a writer for, as long as each
request can be written in lines and is below the limit of the parser; for every way in which its
blocks, or the beginning of them that has come so far, are cut into segments, and for all events:
a delegate that resets from every `onHeaders`, in a program that reads nothing itself, is told of
the requests in their order, from the first one on, and of all of them when the whole stream has
come and there have been as many calls of `onCanRead` as segments and requests.  Each is told of
with its method, its query, its version and all its headers but the last, unless it has no
headers: then its request line is the one that is missing. -/
theorem requests_arrive (ops : List HTTPHeadersWriter.Op)
    (hgood : ∀ r ∈ Draft.empty.requests ops, r.Good) (segments : List (List UInt8))
    (harrived : segments.flatten <+: HTTPHeadersWriter.fresh.stream ops) (events : List Event)
    (he : ∀ e ∈ events, e.Resets) :
    (headerSets ((fresh segments).run events).2).map HTTPHeadersParser.visible <+:
        (Draft.empty.requests ops).map Request.told ∧
      (segments.flatten = HTTPHeadersWriter.fresh.stream ops →
        segments.length + (Draft.empty.requests ops).length ≤ events.countP Event.isCanRead →
        (headerSets ((fresh segments).run events).2).map HTTPHeadersParser.visible =
          (Draft.empty.requests ops).map Request.told) := by
  have hstream : HTTPHeadersWriter.fresh.stream ops =
      (Draft.empty.requests ops).flatMap Request.text := by
    rw [← Draft.writer_empty]
    exact Draft.stream_writer fun r hr => (hgood r hr).fits
  have hparsed := HTTPHeadersParser.parseAll_texts hgood
  rw [← hstream] at hparsed
  have hframed := framed_fresh segments
  constructor
  · have hprefix := (run_framed he hframed).delivered_begins.trans
      (HTTPHeadersParser.parseAll_prefix harrived)
    rw [List.nil_append] at hprefix
    exact hparsed ▸ hprefix.map _
  · intro hall henough
    have hcount : (parseAll segments.flatten).length = (Draft.empty.requests ops).length := by
      rw [hall, ← List.length_map (f := HTTPHeadersParser.visible), hparsed, List.length_map]
    have hleft : callsLeft segments.flatten [] (fresh segments) =
        segments.length + (Draft.empty.requests ops).length := by
      rw [callsLeft, hcount]
      rfl
    have hdelivers := run_delivers he hframed (hleft ▸ henough)
    rw [List.nil_append] at hdelivers
    rw [hdelivers, hall, hparsed]

open HTTPHeadersParser (exampleQuery exampleHeader exampleQuery_good exampleHeader_good)

/-- `GET /a` with the headers `A: b` and `B: `, and `POST /a` with the header `A: b`; the second
`getData` of the three has no request line. -/
def exampleOps : List HTTPHeadersWriter.Op :=
  [.addHeader (chars ['B']) [], .setRequest .GET exampleQuery .HTTP_1_1,
    .addHeader (chars ['A']) (chars ['b']), .getData, .getData,
    .setRequest .POST exampleQuery .HTTP_1_0, .addHeader (chars ['A']) (chars ['b']), .getData]

theorem exampleOps_good : ∀ r ∈ Draft.empty.requests exampleOps, r.Good := by
  have hrequests : Draft.empty.requests exampleOps =
      [⟨.GET, exampleQuery, .HTTP_1_1,
          SortedMap.empty.insertAll [(chars ['B'], []), exampleHeader]⟩,
        ⟨.POST, exampleQuery, .HTTP_1_0, SortedMap.empty.insertAll [exampleHeader]⟩] := rfl
  have hheaders : ∀ e ∈ [(chars ['B'], []), exampleHeader], GoodHeader e := by
    intro e he
    rcases List.mem_cons.mp he with rfl | he
    · exact ⟨by decide, forall_mem_of_all (by decide), by decide, by decide⟩
    · rw [List.mem_singleton.mp he]
      exact exampleHeader_good
  rw [hrequests]
  intro r hr
  rcases List.mem_cons.mp hr with rfl | hr
  · refine ⟨exampleQuery_good, fun e he => hheaders e ?_, by decide⟩
    exact (SortedMap.mem_insertAll he).resolve_left (by simp)
  · rw [List.mem_singleton.mp hr]
    refine ⟨exampleQuery_good, fun e he => hheaders e ?_, by decide⟩
    exact List.mem_cons_of_mem _ ((SortedMap.mem_insertAll he).resolve_left (by simp))

/-- In two segments; the second request has nothing of the first one, and no header at all. -/
theorem requests_arrive_example :
    let stream := HTTPHeadersWriter.fresh.stream exampleOps
    (headerSets ((fresh [stream.take 30, stream.drop 30]).run
      (List.replicate 4 (.canRead [.reset]))).2).map HTTPHeadersParser.visible =
      (Draft.empty.requests exampleOps).map Request.told := by
  intro stream
  have hflat : [stream.take 30, stream.drop 30].flatten = stream := by simp
  refine (requests_arrive exampleOps exampleOps_good _ (hflat ▸ List.prefix_rfl) _ ?_).2 hflat ?_
  · decide
  · decide

end HTTPRequest

end Craplib
