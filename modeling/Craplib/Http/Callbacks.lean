import Craplib.Http.Limit
import Craplib.Http.ReadEdge

/-!
# What the delegate of an `HTTPRequest` is told

The delegate sees a request in two phases: until `onHeaders` it waits for a header set, and
from there on it has the message body, until it calls `reset`.  `calls_in_order` says that
the calls keep to these phases, in every run, and that `state` is the phase.  Only
`onDisconnect` is passed on in both.

`silent_iff` says which requests never call their delegate again, but for `onDisconnect`:
those whose parser does not become ready on what is left in `body` and on what is still to
come, such as the ones whose parser has met its limit (`Spent.silent`).  What is still to come
to the parser depends on the program, which may take segments from the socket itself.
-/

namespace Craplib

namespace HTTPRequest

open HTTPHeadersParser (defaultLimit)

/-! ## The phases -/

/-- What the delegate may expect. -/
inductive Phase
  /-- a header set -/
  | headers
  /-- that it can read the message body, or write an answer -/
  | body
  deriving DecidableEq, Repr

/-- The phase behind an observation. -/
def Phase.next : Phase → Obs → Phase
  | _, .onHeaders _ => .body
  | _, .reset => .headers
  | phase, _ => phase

/-- What may be observed in a phase: a header set that is complete, or a call that concerns the
message body; `onDisconnect` in both.  The program itself may `read`, `write` and `reset` when
it likes. -/
def Phase.Allows (phase : Phase) : Obs → Prop
  | .onHeaders parser => phase = .headers ∧ parser.ready = true
  | .onCanRead => phase = .body
  | .onCanWrite => phase = .body
  | .onDisconnect => True
  | .read _ => True
  | .wrote _ => True
  | .reset => True

/-- The value of `state` in a phase. -/
def Phase.state : Phase → State
  | .headers => .PARSING_HEADERS
  | .body => .READING_BODY

/-- Every observation is allowed in the phase it is made in. -/
def Phase.Follows (phase : Phase) (os : List Obs) : Prop :=
  ∀ pre o post, os = pre ++ o :: post → (pre.foldl Phase.next phase).Allows o

variable {phase : Phase} {self : HTTPRequest}

theorem Phase.follows_nil (phase : Phase) : phase.Follows [] := by
  rintro pre o post h
  simp at h

theorem Phase.Follows.cons {o : Obs} {os : List Obs} (hnow : phase.Allows o)
    (hrest : (phase.next o).Follows os) : phase.Follows (o :: os) := by
  rintro (_ | ⟨o', pre⟩) p post h
  · obtain ⟨rfl, rfl⟩ := List.cons.inj h
    exact hnow
  · obtain ⟨rfl, hpre⟩ := List.cons.inj h
    exact hrest pre p post hpre

theorem Phase.Follows.append {os os' : List Obs} (hnow : phase.Follows os)
    (hrest : (os.foldl Phase.next phase).Follows os') : phase.Follows (os ++ os') := by
  induction os generalizing phase with
  | nil => exact hrest
  | cons o os ih =>
      have hfirst : phase.Allows o := hnow [] o os rfl
      refine Phase.Follows.cons hfirst (ih (fun pre p post h => ?_) hrest)
      exact hnow (o :: pre) p post (by rw [h, List.cons_append])

/-! ## The calls keep to the phases -/

/-- The actions of a delegate are allowed, and leave `state` at the phase. -/
theorem acts_follow (delegate : List Act) (h : self.state = phase.state) :
    phase.Follows (self.acts delegate).2 ∧
      (self.acts delegate).1.state = ((self.acts delegate).2.foldl Phase.next phase).state := by
  induction delegate generalizing self phase with
  | nil => exact ⟨phase.follows_nil, h⟩
  | cons a rest ih =>
      rw [acts_cons, List.foldl_cons]
      cases a with
      | read =>
          obtain ⟨hfollows, hstate⟩ := @ih phase (self.act .read).1 h
          exact ⟨hfollows.cons trivial, hstate⟩
      | write data sent =>
          obtain ⟨hfollows, hstate⟩ := @ih phase (self.act (.write data sent)).1 h
          exact ⟨hfollows.cons trivial, hstate⟩
      | reset =>
          obtain ⟨hfollows, hstate⟩ := @ih .headers (self.act .reset).1 rfl
          exact ⟨hfollows.cons trivial, hstate⟩

/-- `onCanRead` tells of a header set or of the message body, as the phase is. -/
theorem onCanRead_follow (delegate : List Act) (h : self.state = phase.state) :
    phase.Follows (self.onCanRead delegate).2 ∧ (self.onCanRead delegate).1.state =
      ((self.onCanRead delegate).2.foldl Phase.next phase).state := by
  unfold onCanRead
  cases phase with
  | headers =>
      have hstate : self.state ≠ .READING_BODY := by
        rw [h]
        decide
      rw [if_pos hstate]
      rcases (if self.body = [] then sockRead self.sock else (self.body, self.sock)) with
        ⟨body, sock⟩
      simp only
      split
      · next hready =>
          obtain ⟨hfollows, hthen⟩ := @acts_follow .body
            ⟨sock, (self.parser.write body).2, (self.parser.write body).1, .READING_BODY⟩
            delegate rfl
          exact ⟨hfollows.cons ⟨rfl, hready⟩, hthen⟩
      · exact ⟨Phase.follows_nil _, h⟩
  | body =>
      have hstate : self.state = .READING_BODY := h
      rw [if_neg (not_not_intro hstate)]
      obtain ⟨hfollows, hthen⟩ := @acts_follow .body self delegate h
      exact ⟨hfollows.cons rfl, hthen⟩

/-- **One event** keeps to the phases. -/
theorem handle_follow (e : Event) (h : self.state = phase.state) :
    phase.Follows (self.handle e).2 ∧
      (self.handle e).1.state = ((self.handle e).2.foldl Phase.next phase).state := by
  cases e with
  | canRead delegate => exact onCanRead_follow delegate h
  | canWrite delegate =>
      rw [handle, onCanWrite]
      split
      · next hstate =>
          obtain rfl : phase = .body := by
            rw [hstate] at h
            cases phase with
            | headers => cases h
            | body => rfl
          obtain ⟨hfollows, hthen⟩ := acts_follow delegate h
          exact ⟨hfollows.cons rfl, hthen⟩
      · exact ⟨Phase.follows_nil _, h⟩
  | disconnect delegate =>
      obtain ⟨hfollows, hthen⟩ := acts_follow delegate h
      exact ⟨hfollows.cons trivial, hthen⟩
  | outside program => exact acts_follow program h

theorem run_follow (events : List Event) (h : self.state = phase.state) :
    phase.Follows (self.run events).2 ∧
      (self.run events).1.state = ((self.run events).2.foldl Phase.next phase).state := by
  induction events generalizing self phase with
  | nil => exact ⟨phase.follows_nil, h⟩
  | cons e es ih =>
      obtain ⟨hnow, hstate⟩ := handle_follow e h
      obtain ⟨hrest, hlast⟩ := ih hstate
      rw [run_cons, List.foldl_append]
      exact ⟨hnow.append hrest, hlast⟩

/-- **The calls keep to the phases**, on every segmentation, for all events and whatever the
program does in the callbacks and between them: a header set is handed over only where the last
one has been followed by a `reset`, and it is complete; `onCanRead` and `onCanWrite` come only
behind a header set and before a `reset`; and `state` is the phase, so it never is `DEAD`. -/
theorem calls_in_order (segments : List (List UInt8)) (events : List Event) :
    Phase.headers.Follows ((fresh segments).run events).2 ∧
      ((fresh segments).run events).1.state =
        (((fresh segments).run events).2.foldl Phase.next .headers).state :=
  run_follow events rfl

/-! ## Requests that have gone silent -/

/-- A call of the delegate other than `onDisconnect`. -/
def Obs.tells : Obs → Bool
  | .onHeaders _ | .onCanRead | .onCanWrite => true
  | .onDisconnect | .read _ | .wrote _ | .reset => false

/-- The delegate is not called, but for `onDisconnect`. -/
def Silent (os : List Obs) : Prop := ∀ o ∈ os, o.tells = false

/-- The program reads nothing in this event, other than in a callback that tells it something. -/
def Event.Unread : Event → Prop
  | .canRead _ | .canWrite _ => True
  | .disconnect delegate => .read ∉ delegate
  | .outside program => .read ∉ program

section Silence

variable {parser : HTTPHeadersParser}

theorem silent_nil : Silent [] := by
  intro o ho
  cases ho

theorem silent_append {os os' : List Obs} : Silent (os ++ os') ↔ Silent os ∧ Silent os' :=
  List.forall_mem_append

theorem silent_cons {o : Obs} {os : List Obs} :
    Silent (o :: os) ↔ o.tells = false ∧ Silent os :=
  List.forall_mem_cons

theorem silent_acts (self : HTTPRequest) (program : List Act) : Silent (self.acts program).2 := by
  induction program generalizing self with
  | nil => exact silent_nil
  | cons a rest ih =>
      rw [acts_cons, silent_cons]
      exact ⟨by cases a <;> rfl, ih _⟩

theorem write_nil (hready : parser.ready = false) : parser.write [] = (parser, []) := by
  rw [HTTPHeadersParser.write, if_neg (by simp [hready])]
  rfl

/-- What becomes of a parser on a first segment and those behind it. -/
theorem feed_cons (hready : parser.ready = false) (segment : List UInt8)
    (segments : List (List UInt8)) : (parser.feed (segment :: segments)).1 =
      if (parser.write segment).1.ready then (parser.write segment).1
      else ((parser.write segment).1.feed segments).1 := by
  rw [HTTPHeadersParser.feed, Incremental.feed, if_neg (by simp [hready])]
  split <;> rfl

/-- The parser of the request is ready once it has been given what is left in `body` and then
these segments. -/
def Completes (self : HTTPRequest) (segments : List (List UInt8)) : Prop :=
  (self.parser.feed (self.body :: segments)).1.ready = true

instance (self : HTTPRequest) (segments : List (List UInt8)) :
    Decidable (self.Completes segments) :=
  inferInstanceAs (Decidable (_ = true))

/-- What the parser may be given of the segments to come: all of them, or those that a program
leaves which may read, too. -/
def Offered (reads : Bool) (sock kept : List (List UInt8)) : Prop :=
  if reads then kept.Sublist sock else kept = sock

theorem Offered.cons {reads : Bool} {sock kept : List (List UInt8)} (segment : List UInt8)
    (h : Offered reads sock kept) : Offered reads (segment :: sock) (segment :: kept) := by
  cases reads with
  | true => exact List.Sublist.cons_cons segment h
  | false => exact congrArg (segment :: ·) h

/-- A program leaves a part of the segments to the parser; all of them, if it does not read. -/
theorem Offered.of_acts {reads : Bool} {kept : List (List UInt8)} {program : List Act}
    (hunread : reads = false → .read ∉ program)
    (h : Offered reads (self.acts program).1.sock kept) : Offered reads self.sock kept := by
  rw [sock_acts] at h
  cases reads with
  | true => exact List.Sublist.trans h (List.drop_sublist _ _)
  | false => rwa [List.count_eq_zero.mpr (hunread rfl), List.drop_zero] at h

/-- The request is parsing headers, and its parser becomes ready on nothing that it may be
given. -/
structure Stuck (reads : Bool) (request : HTTPRequest) : Prop where
  parsing : request.state = .PARSING_HEADERS
  incomplete : ∀ kept, Offered reads request.sock kept → ¬ request.Completes kept

/-- The bytes that `onCanRead` gives to the parser, and the socket then. -/
def source (self : HTTPRequest) : List UInt8 × List (List UInt8) :=
  if self.body = [] then sockRead self.sock else (self.body, self.sock)

/-- An empty `body` is filled from the socket first. -/
theorem completes_of_source {reads : Bool} (hready : self.parser.ready = false)
    {kept : List (List UInt8)} (hkept : Offered reads self.source.2 kept)
    (hcompletes : (self.parser.feed (self.source.1 :: kept)).1.ready = true) :
    ∃ kept', Offered reads self.sock kept' ∧ self.Completes kept' := by
  unfold source at hkept hcompletes
  by_cases hbody : self.body = []
  · rw [if_pos hbody] at hkept hcompletes
    cases hsock : self.sock with
    | nil =>
        rw [hsock] at hkept hcompletes
        refine ⟨kept, hkept, ?_⟩
        rw [Completes, hbody]
        exact hcompletes
    | cons segment rest =>
        rw [hsock] at hkept hcompletes
        refine ⟨segment :: kept, hkept.cons segment, ?_⟩
        rw [Completes, hbody, feed_cons hready, write_nil hready, if_neg (by simp [hready])]
        exact hcompletes
  · rw [if_neg hbody] at hkept hcompletes
    exact ⟨kept, hkept, hcompletes⟩

/-- **One `onCanRead`** of a request that is parsing headers: it tells the delegate of a header
set, or the parser has taken what it was given, unless it is past its limit. -/
theorem onCanRead_parsing (delegate : List Act) (hstate : self.state = .PARSING_HEADERS)
    (hready : self.parser.ready = false) :
    (¬ Silent (self.onCanRead delegate).2 ∧
      ∀ kept, (self.parser.feed (self.source.1 :: kept)).1.ready = true) ∨
    (Silent (self.onCanRead delegate).2 ∧
      (self.onCanRead delegate).1.state = .PARSING_HEADERS ∧
      (self.onCanRead delegate).1.parser.ready = false ∧
      (self.onCanRead delegate).1.sock = self.source.2 ∧
      ∀ kept, ((self.onCanRead delegate).1.Completes kept ↔
          (self.parser.feed (self.source.1 :: kept)).1.ready = true) ∧
        ((self.onCanRead delegate).1.Completes kept →
          (self.onCanRead delegate).1.body = [])) := by
  unfold onCanRead
  rw [if_pos (by simp [hstate]), ← source]
  rcases self.source with ⟨body, sock⟩
  simp only
  cases hnow : (self.parser.write body).1.ready with
  | true =>
      refine Or.inl ⟨fun hsilent => ?_, fun kept => ?_⟩
      · have htells := hsilent (.onHeaders (self.parser.write body).1) (by simp)
        cases htells
      · rw [feed_cons hready, if_pos hnow, hnow]
  | false =>
      rw [if_neg Bool.false_ne_true]
      refine Or.inr ⟨silent_nil, hstate, hnow, rfl, fun kept => ?_⟩
      unfold Completes
      rw [feed_cons hready, if_neg (by simp [hnow])]
      by_cases hleft : (self.parser.write body).2 = []
      · refine ⟨?_, fun _ => hleft⟩
        rw [feed_cons hnow, hleft, write_nil hnow, if_neg (by simp [hnow])]
      · -- bytes are left where the limit is met: nothing makes the parser ready any more
        have hspent := spent_of_rest body hready hnow hleft
        rw [hspent.feed, hspent.feed]
        simp

/-! ### A request that is stuck -/

theorem acts_parsing (program : List Act) (hstate : self.state = .PARSING_HEADERS) :
    (self.acts program).1.state = .PARSING_HEADERS := by
  induction program generalizing self with
  | nil => exact hstate
  | cons a rest ih =>
      rw [acts_cons]
      cases a with
      | read | write data sent => exact ih hstate
      | reset => exact ih rfl

theorem Stuck.acts {reads : Bool} (h : self.Stuck reads) {program : List Act}
    (hunread : reads = false → .read ∉ program) : (self.acts program).1.Stuck reads := by
  obtain ⟨hbody, hparser⟩ := self.acts_frame program
  refine ⟨acts_parsing program h.parsing, fun kept hkept => ?_⟩
  unfold Completes
  rw [hbody, hparser]
  exact h.incomplete kept (hkept.of_acts hunread)

/-- A request that is stuck tells its delegate of nothing. -/
theorem Stuck.silent {reads : Bool} (h : self.Stuck reads) (hready : self.parser.ready = false)
    (later : List Event) (hunread : reads = false → ∀ e ∈ later, e.Unread) :
    Silent (self.run later).2 := by
  induction later generalizing self with
  | nil => exact silent_nil
  | cons e es ih =>
      have hnow : reads = false → e.Unread := fun hr => hunread hr e List.mem_cons_self
      have hthen : ∀ {self' : HTTPRequest}, self'.Stuck reads → self'.parser.ready = false →
          Silent (self'.run es).2 := fun h' hready' =>
        ih h' hready' fun hr e he => hunread hr e (List.mem_cons_of_mem _ he)
      have hacts : ∀ program : List Act, (reads = false → .read ∉ program) →
          Silent ((self.acts program).1.run es).2 := fun program hprogram =>
        hthen (h.acts hprogram) ((self.acts_frame program).2 ▸ hready)
      rw [run_cons, silent_append]
      cases e with
      | canRead delegate =>
          rcases onCanRead_parsing delegate h.parsing hready with
            ⟨-, hcompletes⟩ | ⟨hsilent, hstate', hready', hsock, hiff⟩
          · obtain ⟨kept, hkept, hcomplete⟩ :=
              @completes_of_source _ false hready _ rfl (hcompletes self.source.2)
            refine absurd hcomplete (h.incomplete kept ?_)
            cases reads with
            | true => exact hkept ▸ List.Sublist.refl _
            | false => exact hkept
          · refine ⟨hsilent, hthen ⟨hstate', fun kept hkept hcomplete => ?_⟩ hready'⟩
            rw [handle, hsock] at hkept
            obtain ⟨kept', hkept', hcomplete'⟩ :=
              completes_of_source hready hkept ((hiff kept).1.mp hcomplete)
            exact h.incomplete kept' hkept' hcomplete'
      | canWrite delegate =>
          rw [handle, onCanWrite, if_neg (by simp [h.parsing])]
          exact ⟨silent_nil, hthen h hready⟩
      | disconnect delegate =>
          exact ⟨silent_cons.mpr ⟨rfl, silent_acts self delegate⟩, hacts delegate hnow⟩
      | outside program => exact ⟨silent_acts self program, hacts program hnow⟩

/-! ### A request that is not -/

/-- The delegate can be told of something, by a program that reads nothing if this is asked. -/
def Heard (self : HTTPRequest) (unread : Prop) : Prop :=
  ∃ later : List Event, (unread → ∀ e ∈ later, e.Unread) ∧ ¬ Silent (self.run later).2

/-- What is told of after an event can be told of. -/
theorem Heard.cons {unread : Prop} {e : Event} (hunread : unread → e.Unread)
    (h : (self.handle e).1.Heard unread) : self.Heard unread := by
  obtain ⟨later, hlater, hheard⟩ := h
  refine ⟨e :: later, fun hu => List.forall_mem_cons.mpr ⟨hunread hu, hlater hu⟩, fun hsilent => ?_⟩
  rw [run_cons, silent_append] at hsilent
  exact hheard hsilent.2

/-- The next `onCanRead` tells of a header set that can be completed, or leaves one that can be
completed from the segments behind; nothing is left in `body` then. -/
theorem heard_of_source {unread : Prop} {segment : List UInt8} {rest kept : List (List UInt8)}
    (hstate : self.state = .PARSING_HEADERS) (hready : self.parser.ready = false)
    (hsource : self.source = (segment, rest))
    (hcompletes : (self.parser.feed (segment :: kept)).1.ready = true)
    (hthen : ∀ self' : HTTPRequest, self'.sock = rest → self'.state = .PARSING_HEADERS →
      self'.parser.ready = false → self'.body = [] → self'.Completes kept → self'.Heard unread) :
    self.Heard unread := by
  rcases onCanRead_parsing [] hstate hready with
    ⟨hheard, -⟩ | ⟨-, hstate', hready', hsock', hiff⟩
  · refine ⟨[.canRead []], fun _ => List.forall_mem_singleton.mpr trivial, fun hsilent => hheard ?_⟩
    rw [run_cons, silent_append] at hsilent
    exact hsilent.1
  · rw [hsource] at hsock' hiff
    have hcompletes' := (hiff kept).1.mpr hcompletes
    exact Heard.cons (e := .canRead []) (fun _ => trivial)
      (hthen _ hsock' hstate' hready' ((hiff kept).2 hcompletes') hcompletes')

/-- A header set that can be completed is told of, if the program takes the segments between
itself and `onCanRead` is called for each of the others; nothing is left in `body`. -/
theorem heard_of_empty {sock kept : List (List UInt8)} (hkept : kept.Sublist sock)
    (hsock : self.sock = sock) (hstate : self.state = .PARSING_HEADERS)
    (hready : self.parser.ready = false) (hbody : self.body = [])
    (hcompletes : self.Completes kept) : self.Heard (kept = sock) := by
  rw [Completes, hbody, feed_cons hready, write_nil hready, if_neg (by simp [hready])]
    at hcompletes
  induction hkept generalizing self with
  | slnil =>
      rw [HTTPHeadersParser.feed, Incremental.feed, hready] at hcompletes
      cases hcompletes
  | @cons kept rest segment hsub ih =>
      -- the program takes the first segment
      obtain ⟨later, -, hheard⟩ := @ih { self with sock := rest } rfl hstate hready hbody hcompletes
      refine ⟨.outside [.read] :: later, fun heq => ?_, fun hsilent => hheard ?_⟩
      · have hlength := hsub.length_le
        rw [heq, List.length_cons] at hlength
        omega
      · rw [run_cons, silent_append] at hsilent
        have hrest : (self.acts [.read]).1 = { self with sock := rest } := by
          rw [acts_cons, acts_nil, act, hsock]
          rfl
        rw [← hrest]
        exact hsilent.2
  | @cons_cons kept rest segment hsub ih =>
      have hsource : self.source = (segment, rest) := by
        rw [source, if_pos hbody, hsock]
        rfl
      refine heard_of_source hstate hready hsource hcompletes ?_
      intro self' hsock' hstate' hready' hbody' hcompletes'
      rw [Completes, hbody', feed_cons hready', write_nil hready', if_neg (by simp [hready'])]
        at hcompletes'
      obtain ⟨later, hunread, hheard⟩ := ih hsock' hstate' hready' hbody' hcompletes'
      exact ⟨later, fun heq => hunread (List.cons.inj heq).2, hheard⟩

/-- The same, whatever is left in `body`. -/
theorem heard_of_completes {kept : List (List UInt8)} (hkept : kept.Sublist self.sock)
    (hstate : self.state = .PARSING_HEADERS) (hready : self.parser.ready = false)
    (hcompletes : self.Completes kept) : self.Heard (kept = self.sock) := by
  by_cases hbody : self.body = []
  · exact heard_of_empty hkept rfl hstate hready hbody hcompletes
  · have hsource : self.source = (self.body, self.sock) := if_neg hbody
    refine heard_of_source hstate hready hsource hcompletes ?_
    intro self' hsock' hstate' hready' hbody'
    exact heard_of_empty hkept hsock' hstate' hready' hbody'

/-! ### The result -/

/-- Past the limit the delegate is told of nothing any more, whatever arrives. -/
theorem Spent.silent (h : Spent self.parser) (hstate : self.state = .PARSING_HEADERS)
    (arrives : List (List UInt8)) (later : List Event) :
    Silent (run { self with sock := arrives } later).2 := by
  have hstuck : Stuck true { self with sock := arrives } := by
    refine ⟨hstate, fun kept _ hcompletes => ?_⟩
    rw [Completes, Spent.feed (by exact h)] at hcompletes
    cases hcompletes
  exact hstuck.silent h.1 later fun hr => absurd hr (by decide)

theorem silent_iff_stuck (segments : List (List UInt8)) (events : List Event) (reads : Bool) :
    (∀ later : List Event, (reads = false → ∀ e ∈ later, e.Unread) →
        Silent (((fresh segments).run events).1.run later).2) ↔
      ((fresh segments).run events).1.Stuck reads := by
  have hready := ((primed_fresh segments).run events).1
  have hstate := (calls_in_order segments events).2
  generalize ((fresh segments).run events).1 = self at hready hstate ⊢
  constructor
  · intro hsilent
    cases hphase : ((fresh segments).run events).2.foldl Phase.next .headers with
    | headers =>
        rw [hphase] at hstate
        refine ⟨hstate, fun kept hkept hcompletes => ?_⟩
        have hsub : kept.Sublist self.sock ∧ (reads = false → kept = self.sock) := by
          cases reads with
          | true => exact ⟨hkept, fun hr => by cases hr⟩
          | false =>
              obtain rfl : kept = self.sock := hkept
              exact ⟨List.Sublist.refl _, fun _ => rfl⟩
        obtain ⟨later, hunread, hheard⟩ := heard_of_completes hsub.1 hstate hready hcompletes
        exact hheard (hsilent later fun hr => hunread (hsub.2 hr))
    | body =>
        -- an `onCanWrite` is passed on
        rw [hphase] at hstate
        have hbody : self.state = .READING_BODY := hstate
        have hnone := hsilent [.canWrite []] fun _ e he => by
          rw [List.mem_singleton.mp he]
          trivial
        rw [run_cons, handle, onCanWrite, if_pos hbody] at hnone
        exact absurd (hnone .onCanWrite (by simp)) (by simp [Obs.tells])
  · exact fun hstuck later hunread => hstuck.silent hready later hunread

/-- **Which requests have gone silent.**  After any run, and but for `onDisconnect`: the delegate
is never called again, whatever happens from there on, exactly when the request is parsing
headers and its parser does not become ready on what is left in `body` and any of the segments
to come, in their order, as the program may take the others itself; and where the program reads
nothing more, exactly when it is parsing headers and its parser does not become ready on what is
left in `body` and all the rest of the stream. -/
theorem silent_iff (segments : List (List UInt8)) (events : List Event) :
    let self := ((fresh segments).run events).1
    ((∀ later, Silent (self.run later).2) ↔
        self.state = .PARSING_HEADERS ∧ ∀ kept, kept.Sublist self.sock → ¬ self.Completes kept) ∧
      ((∀ later, (∀ e ∈ later, e.Unread) → Silent (self.run later).2) ↔
        self.state = .PARSING_HEADERS ∧ ¬ self.Completes self.sock) := by
  have hfree := silent_iff_stuck segments events true
  have hunread := silent_iff_stuck segments events false
  constructor
  · constructor
    · intro hsilent
      have hstuck := hfree.mp fun later _ => hsilent later
      exact ⟨hstuck.parsing, hstuck.incomplete⟩
    · rintro ⟨hstate, hnot⟩ later
      exact hfree.mpr ⟨hstate, hnot⟩ later fun hr => absurd hr (by decide)
  · constructor
    · intro hsilent
      have hstuck := hunread.mp fun later he => hsilent later (he rfl)
      exact ⟨hstuck.parsing, hstuck.incomplete _ rfl⟩
    · rintro ⟨hstate, hnot⟩ later he
      refine hunread.mpr ⟨hstate, fun kept hkept => ?_⟩ later fun _ => he
      rwa [show kept = _ from hkept]

end Silence

end HTTPRequest

end Craplib
