import Craplib.Http.Limit
import Craplib.Http.Pipeline

/-!
# Where every segment of an `HTTPRequest` goes

Two readers share one socket: the handler, which reads while `body` is empty and headers are
awaited, and the delegate, with `HTTPRequest::read`.  A segment goes to one of them as a whole.
What the handler takes is cut into header blocks, one behind the other: those that were given to
`onHeaders`, the one that the parser is at, and what waits in `body`.  `segments_shared` says so
for every run, any number of requests on the connection and whatever the delegate does.
-/

namespace Craplib

open HTTPHeadersParser (defaultLimit)

namespace HTTPHeadersParser

/-- The parser that every header block begins with. -/
abbrev start : HTTPHeadersParser := fresh .REQUEST defaultLimit

theorem view_start : start.view = start := view_fresh .REQUEST (by decide)

/-- A parser that becomes ready has not met its limit. -/
theorem view_write_of_ready {self : HTTPHeadersParser} (data : List UInt8)
    (hready : self.ready = false) (hnow : (self.write data).1.ready = true) :
    (self.write data).1.view = (self.write data).1 := by
  rw [write_eq_consume _ _ hready] at hnow ⊢
  induction data generalizing self with
  | nil =>
      rw [Incremental.consume, hready] at hnow
      cases hnow
  | cons p data ih =>
      rw [Incremental.consume, next] at hnow ⊢
      by_cases hlim : self.limit ≤ self.count + 1
      · simp only [hlim, if_true] at hnow
        rw [hready] at hnow
        cases hnow
      · simp only [hlim, if_false] at hnow ⊢
        cases htake : (self.take p).ready with
        | true =>
            rw [if_pos rfl]
            exact view_eq_self (by rw [take_count, take_limit]; omega)
        | false =>
            rw [htake, if_neg Bool.false_ne_true] at hnow
            rw [if_neg Bool.false_ne_true]
            exact ih htake hnow

/-- What a parser is that has taken the bytes `taken` since the beginning of a block. -/
def Parses (self : HTTPHeadersParser) (taken : List UInt8) : Prop :=
  self.view = taken.foldl absorb start

/-- The bytes of a complete header block. -/
def Block (block : List UInt8) : Prop := FirstEmptyLine block ∧ (block.length : ℤ) < defaultLimit

theorem parses_start : start.Parses [] := view_start

/-- **What a `write` takes**: the rest of the block, or bytes that do not complete it. -/
theorem Parses.write {self : HTTPHeadersParser} {taken : List UInt8} (h : self.Parses taken)
    (hready : self.ready = false) (data : List UInt8) :
    ∃ used, data = used ++ (self.write data).2 ∧
      ((self.write data).1.ready = true →
        Block (taken ++ used) ∧ (self.write data).1 = (start.write (taken ++ used)).1) ∧
      (self.write data).1.Parses (taken ++ used) := by
  have hopen : (taken.foldl absorb start).ready = false := by
    rw [← h]
    exact hready
  have hview : ∀ used, used.foldl absorb self.view = (taken ++ used).foldl absorb start := by
    intro used
    rw [h, List.foldl_append]
  rw [write_eq_consume self data hready]
  cases hnow : (Incremental.consume next self data).1.ready with
  | false =>
      obtain ⟨used, hused, hparses⟩ := absorbs.consume_used hready data
      exact ⟨used, hused, fun hdone => absurd hdone Bool.false_ne_true, hparses.trans (hview used)⟩
  | true =>
      obtain ⟨used, hused, hparses, hleast⟩ := absorbs.consume_done hready hnow
      rw [hview] at hparses
      refine ⟨used, hused, fun _ => ?_, hparses⟩
      have hdone : ((taken ++ used).foldl absorb start).ready = true := by
        rw [← hparses]
        exact hnow
      have hblock : FirstEmptyLine (taken ++ used) := by
        refine firstEmptyLine .REQUEST defaultLimit (by rw [view_start]; exact hdone) ?_
        intro p hp hne
        rw [view_start]
        rcases List.prefix_or_prefix_of_prefix hp (List.prefix_append taken used) with
          hbefore | ⟨q, rfl⟩
        · rw [Bool.eq_false_iff] at hopen ⊢
          exact mt (ready_mono hbefore) hopen
        · rw [← hview]
          exact hleast q ((List.prefix_append_right_inj taken).mp hp) fun heq => hne (by rw [heq])
      refine ⟨⟨hblock, ?_⟩, ?_⟩
      · obtain ⟨pre, hpre, hfirst, hshort⟩ := firstEmptyLine_of_ready .REQUEST (by decide) hdone
        rwa [hblock.2 pre hpre hfirst.1] at hshort
      · -- two parsers that are ready and have the same view are the same
        have hready' : start.ready = false := rfl
        have hwhole : (start.write (taken ++ used)).1.view =
            (taken ++ used).foldl absorb start := by
          rw [write_eq_consume _ _ hready', absorbs.view_consume hready', view_start]
        have hthen : (start.write (taken ++ used)).1.ready = true := by
          have hsame : (start.write (taken ++ used)).1.view.ready = true := by
            rw [hwhole]
            exact hdone
          exact hsame
        have heq := view_write_of_ready data hready
          (by rw [write_eq_consume _ _ hready]; exact hnow)
        rw [write_eq_consume _ _ hready] at heq
        rw [← heq, hparses, ← hwhole, view_write_of_ready _ hready' hthen]

end HTTPHeadersParser

namespace HTTPRequest

open HTTPHeadersParser (start Parses Block parses_start)

/-- Who takes a segment from the socket. -/
inductive Reader
  /-- `onCanRead`, into `body` -/
  | handler
  /-- the delegate, with `HTTPRequest::read` -/
  | delegate
  deriving DecidableEq, Repr

/-- The bytes that a reader took. -/
def share (reader : Reader) (taken : List (Reader × List UInt8)) : List UInt8 :=
  (taken.filter fun p => p.1 = reader).flatMap Prod.snd

/-- The bytes that `HTTPRequest::read` returned in an observation. -/
def Obs.bytes : Obs → List UInt8
  | .read bytes => bytes
  | _ => []

/-- The bytes that `HTTPRequest::read` returned. -/
def bytesRead (os : List Obs) : List UInt8 := os.flatMap Obs.bytes

theorem share_append (reader : Reader) (taken taken' : List (Reader × List UInt8)) :
    share reader (taken ++ taken') = share reader taken ++ share reader taken' := by
  rw [share, List.filter_append, List.flatMap_append]
  rfl

/-- What one call of `RWSocket::read` takes. -/
def takes (reader : Reader) (sock : List (List UInt8)) : List (Reader × List UInt8) :=
  (sock.take 1).map fun segment => (reader, segment)

theorem takes_sockRead (reader : Reader) (sock : List (List UInt8)) :
    (takes reader sock).map Prod.snd ++ (sockRead sock).2 = sock ∧
      share reader (takes reader sock) = (sockRead sock).1 := by
  cases sock with
  | nil => exact ⟨rfl, rfl⟩
  | cons segment rest => simp [takes, share, sockRead]

theorem share_takes_other {reader reader' : Reader} (h : reader ≠ reader')
    (sock : List (List UInt8)) : share reader' (takes reader sock) = [] := by
  cases sock with
  | nil => rfl
  | cons segment rest => simp [takes, share, h]

/-! ## The invariant -/

/-- Where the segments are: `taken` in the order they were taken, the header blocks `blocks` that
are complete, and `current`, what the parser has of the next one. -/
structure Shared (segments : List (List UInt8)) (request : HTTPRequest) (os : List Obs)
    (taken : List (Reader × List UInt8)) (blocks : List (List UInt8)) (current : List UInt8) :
    Prop where
  socket : taken.map Prod.snd ++ request.sock = segments
  handler : share .handler taken = blocks.flatten ++ current ++ request.body
  delegate : share .delegate taken = bytesRead os
  headers : headerSets os = blocks.map fun block => (start.write block).1
  complete : ∀ block ∈ blocks, Block block
  unready : request.parser.ready = false
  parses : request.parser.Parses current

variable {segments : List (List UInt8)} {request : HTTPRequest} {os : List Obs}
  {taken : List (Reader × List UInt8)} {blocks : List (List UInt8)} {current : List UInt8}

theorem shared_fresh (segments : List (List UInt8)) :
    Shared segments (fresh segments) [] [] [] [] :=
  ⟨rfl, rfl, rfl, rfl, by simp, rfl, parses_start⟩

/-- An observation without a header set and without bytes. -/
theorem Shared.silent (h : Shared segments request os taken blocks current) {o : Obs}
    (hheaders : o.headers = none) (hbytes : o.bytes = []) :
    Shared segments request (os ++ [o]) taken blocks current := by
  refine { h with delegate := ?_, headers := ?_ }
  · rw [h.delegate, bytesRead, bytesRead, List.flatMap_append, List.flatMap_singleton, hbytes,
      List.append_nil]
  · rw [headerSets_append, h.headers, headerSets, List.filterMap_cons_none hheaders,
      List.filterMap_nil, List.append_nil]

/-- **One action of the delegate.** -/
theorem Shared.act (h : Shared segments request os taken blocks current) (a : Act) :
    ∃ taken', Shared segments (request.act a).1 (os ++ [(request.act a).2]) taken' blocks
      current := by
  cases a with
  | write data sent => exact ⟨taken, h.silent (o := .wrote (data.take sent)) rfl rfl⟩
  | reset => exact ⟨taken, { h.silent (o := .reset) rfl rfl with }⟩
  | read =>
      obtain ⟨hsock, hbytes⟩ := takes_sockRead .delegate request.sock
      refine ⟨taken ++ takes .delegate request.sock, { h with
        socket := ?_, handler := ?_, delegate := ?_, headers := ?_ }⟩
      · rw [List.map_append, List.append_assoc]
        exact (congrArg (taken.map Prod.snd ++ ·) hsock).trans h.socket
      · rw [share_append, share_takes_other (by decide), List.append_nil]
        exact h.handler
      · rw [share_append, hbytes, h.delegate, bytesRead, bytesRead, List.flatMap_append,
          List.flatMap_singleton]
        rfl
      · rw [headerSets_append, h.headers]
        exact List.append_nil _

theorem Shared.acts (h : Shared segments request os taken blocks current) (delegate : List Act) :
    ∃ taken', Shared segments (request.acts delegate).1 (os ++ (request.acts delegate).2) taken'
      blocks current := by
  induction delegate generalizing request os taken with
  | nil => exact ⟨taken, by rwa [acts_nil, List.append_nil]⟩
  | cons a rest ih =>
      obtain ⟨taken', hnow⟩ := h.act a
      rw [acts_cons, List.append_cons]
      exact ih hnow

/-- The delegate does not see the parser of the next block. -/
theorem acts_swap (request : HTTPRequest) (parser : HTTPHeadersParser) (delegate : List Act) :
    acts { request with parser := parser } delegate =
      ({ (request.acts delegate).1 with parser := parser }, (request.acts delegate).2) := by
  induction delegate generalizing request with
  | nil => rfl
  | cons a rest ih =>
      have hact : act { request with parser := parser } a =
          ({ (request.act a).1 with parser := parser }, (request.act a).2) := by
        cases a <;> rfl
      rw [acts_cons, acts_cons, hact, ih]

/-- The handler has its bytes from `body`, or from the socket when `body` is empty. -/
theorem Shared.source (h : Shared segments request os taken blocks current)
    {body : List UInt8} {sock : List (List UInt8)}
    (hsource : (if request.body = [] then sockRead request.sock
      else (request.body, request.sock)) = (body, sock)) :
    ∃ taken', Shared segments { request with body := body, sock := sock } os taken' blocks
      current := by
  by_cases hbody : request.body = []
  · obtain ⟨hsock, hbytes⟩ := takes_sockRead .handler request.sock
    rw [if_pos hbody] at hsource
    rw [hsource] at hsock hbytes
    refine ⟨taken ++ takes .handler request.sock, { h with
      socket := ?_, handler := ?_, delegate := ?_ }⟩
    · rw [List.map_append, List.append_assoc]
      exact (congrArg (taken.map Prod.snd ++ ·) hsock).trans h.socket
    · rw [share_append, hbytes, h.handler, hbody, List.append_nil]
    · rw [share_append, share_takes_other (by decide), List.append_nil]
      exact h.delegate
  · rw [if_neg hbody] at hsource
    obtain ⟨rfl, rfl⟩ := Prod.mk.inj hsource
    exact ⟨taken, h⟩

/-- **`onCanRead`** goes on with the block that the parser is at, or tells the delegate. -/
theorem Shared.onCanRead (h : Shared segments request os taken blocks current)
    (delegate : List Act) : ∃ taken' blocks' current', Shared segments
      (request.onCanRead delegate).1 (os ++ (request.onCanRead delegate).2) taken' blocks'
      current' := by
  unfold HTTPRequest.onCanRead
  by_cases hstate : request.state = .READING_BODY
  · rw [if_neg (not_not_intro hstate)]
    obtain ⟨taken', hacts⟩ := (h.silent (o := .onCanRead) rfl rfl).acts delegate
    rw [← List.append_cons] at hacts
    exact ⟨taken', blocks, current, hacts⟩
  · rw [if_pos hstate]
    rcases hsrc : (if request.body = [] then sockRead request.sock
      else (request.body, request.sock)) with ⟨body, sock⟩
    obtain ⟨taken', hsource⟩ := h.source hsrc
    obtain ⟨used, hused, hdone, hparses⟩ := h.parses.write h.unready body
    have hhandler : share .handler taken' =
        blocks.flatten ++ (current ++ used) ++ (request.parser.write body).2 := by
      rw [hsource.handler, List.append_assoc, List.append_assoc, List.append_assoc, ← hused]
    cases hnow : (request.parser.write body).1.ready with
    | false =>
        simp only [hnow, Bool.false_eq_true, if_false]
        refine ⟨taken', blocks, current ++ used, { hsource with
          handler := hhandler, unready := hnow, parses := hparses, delegate := ?_, headers := ?_ }⟩
        · rw [List.append_nil]
          exact hsource.delegate
        · rw [List.append_nil]
          exact hsource.headers
    | true =>
        -- the block is complete; the next one has not begun
        obtain ⟨hblock, hset⟩ := hdone hnow
        simp only [hnow, if_true]
        have hnext : Shared segments
            ⟨sock, (request.parser.write body).2, start, .READING_BODY⟩
            (os ++ [.onHeaders (request.parser.write body).1]) taken'
            (blocks ++ [current ++ used]) [] := by
          refine ⟨hsource.socket, ?_, ?_, ?_, ?_, rfl, parses_start⟩
          · rw [hhandler]
            simp
          · rw [hsource.delegate, bytesRead, bytesRead, List.flatMap_append]
            simp [Obs.bytes]
          · rw [headerSets_append, hsource.headers, List.map_append, hset]
            rfl
          · intro block hmem
            rcases List.mem_append.mp hmem with hold | hnew
            · exact hsource.complete block hold
            · rwa [List.mem_singleton.mp hnew]
        obtain ⟨taken'', hacts⟩ := hnext.acts delegate
        rw [← List.append_cons] at hacts
        have hswap := acts_swap ⟨sock, (request.parser.write body).2,
          (request.parser.write body).1, .READING_BODY⟩ start delegate
        rw [hswap] at hacts
        exact ⟨taken'', _, [], hacts⟩

/-- **One event.** -/
theorem Shared.handle (h : Shared segments request os taken blocks current) (e : Event) :
    ∃ taken' blocks' current', Shared segments (request.handle e).1 (os ++ (request.handle e).2)
      taken' blocks' current' := by
  cases e with
  | canRead delegate => exact h.onCanRead delegate
  | canWrite delegate =>
      rw [HTTPRequest.handle, onCanWrite]
      split
      · obtain ⟨taken', hacts⟩ := (h.silent (o := .onCanWrite) rfl rfl).acts delegate
        rw [← List.append_cons] at hacts
        exact ⟨taken', blocks, current, hacts⟩
      · exact ⟨taken, blocks, current, by rwa [List.append_nil]⟩
  | disconnect delegate =>
      obtain ⟨taken', hacts⟩ := (h.silent (o := .onDisconnect) rfl rfl).acts delegate
      rw [← List.append_cons] at hacts
      exact ⟨taken', blocks, current, hacts⟩
  | outside program =>
      obtain ⟨taken', hacts⟩ := h.acts program
      exact ⟨taken', blocks, current, hacts⟩

theorem Shared.run (h : Shared segments request os taken blocks current) (events : List Event) :
    ∃ taken' blocks' current', Shared segments (request.run events).1
      (os ++ (request.run events).2) taken' blocks' current' := by
  induction events generalizing request os taken blocks current with
  | nil => exact ⟨taken, blocks, current, by rwa [HTTPRequest.run, List.append_nil]⟩
  | cons e es ih =>
      obtain ⟨taken', blocks', current', hnow⟩ := h.handle e
      rw [run_cons, ← List.append_assoc]
      exact ih hnow

/-- **Every segment goes to one reader**, and what the handler has is cut into header blocks.
On every segmentation, for all events and whatever the delegate does: the segments that were
taken from the socket and those that are left are the stream; what `read` returned is the share
of the delegate; and the share of the handler is the header blocks, one behind the other, whose
parse was given to `onHeaders`, each up to its empty line and below the limit, then what the
parser has of the next block, then `body`. -/
theorem segments_shared (segments : List (List UInt8)) (events : List Event) :
    ∃ (taken : List (Reader × List UInt8)) (blocks : List (List UInt8)) (current : List UInt8),
      taken.map Prod.snd ++ ((fresh segments).run events).1.sock = segments ∧
      share .delegate taken = bytesRead ((fresh segments).run events).2 ∧
      share .handler taken =
        blocks.flatten ++ current ++ ((fresh segments).run events).1.body ∧
      headerSets ((fresh segments).run events).2 = blocks.map (fun b => (start.write b).1) ∧
      (∀ block ∈ blocks, Block block) ∧
      ((fresh segments).run events).1.parser.Parses current := by
  obtain ⟨taken, blocks, current, h⟩ := (shared_fresh segments).run events
  rw [List.nil_append] at h
  exact ⟨taken, blocks, current, h.socket, h.delegate, h.handler, h.headers, h.complete, h.parses⟩

end HTTPRequest

end Craplib
