import Craplib.Lib.Arena
import Craplib.RunLoop.TimerDeadlines
import Craplib.Stream.FileReader

/-!
# File readers on a run loop

An `AsyncFileReader` has a timer of its own, and the run loop of its thread calls it through
that timer, among the other timers of the thread and in the order of their fire times.
`AsyncFileReader` is the model of one reader, which knows by a flag whether its timer is set.
Here any number of readers are opened, read from and destroyed on one loop, in callbacks too,
and the flag is that the timer is in the deque.

Every `read` is of a positive size, as it is in `AsyncFileReader`: one of size zero would take
an empty chunk from the file and have `onError` called for it, although no `fread` has failed.
And the clock, as it is in `Timers`, does not go back: if it did, a timer set for the present
time would not be due at once.

* `readers_deliver` — whatever else is on the loop, what happens to a reader is a run of the
  reader alone; so every delegate is handed its own file, from the front and each byte once.
* `turn_delivers` — the loop does not go back to its wait, and does not return, while a reader
  has something for its delegate: `read` sets the timer for the time it is called at, so it is
  due at once.
-/

namespace Craplib

/-- **A reader whose timer is not set has nothing left to tell**: the last thing that happened to
it, if anything did, is a call. -/
theorem AsyncFileReader.at_rest {content : Bytes} {tr : List (AsyncFileReader × Action)}
    {last : AsyncFileReader} (h : Machine.Run (Machine.Fires step) (init content) tr last)
    (hunset : last.timer = false) :
    last.buffer = [] ∧ (tr = [] ∨ ∃ pre r, tr = pre ++ [(r, .fire)]) := by
  induction h with
  | nil => exact ⟨rfl, .inl rfl⟩
  | @snoc tr r t a _ hstep ih =>
      cases a with
      | fire =>
          obtain ⟨-, rfl⟩ := step_fire hstep
          exact ⟨rfl, .inr ⟨tr, r, rfl⟩⟩
      | read size how =>
          have hread : r.read size how = some t := by
            simp only [Machine.Fires, step] at hstep
            split_ifs at hstep
            exact hstep
          rcases read_cases hread with ⟨hwaits, rfl⟩ | ⟨-, bytes, fp, -, rfl⟩
          · exact absurd (ih hunset).1 hwaits
          · cases hunset

namespace FileReaders

open Machine
open Timers (TimerPtr)

universe u

/-- The members of an `AsyncFileReader`, but for its timer. -/
structure Members where
  fp : File
  buffer : Bytes
  deriving DecidableEq, Repr

/-- A run loop and the file readers of its thread, each known by the address of its timer. -/
structure System (T : Type u) where
  loop : Timers.State T
  /-- The readers that live, with what was in their files when they were opened. -/
  readers : Arena TimerPtr Bytes := .empty
  members : TimerPtr → Members := fun _ => ⟨⟨[], [], false⟩, []⟩

/-- What can happen next. -/
inductive Act (T : Type u)
  /-- A step of the loop, or of the program that is not about a reader. -/
  | loop (act : Timers.Action T)
  /-- `AsyncFileReader(del, filename)`, for a file with this content. -/
  | construct (reader : TimerPtr) (content : Bytes)
  | read (reader : TimerPtr) (size : ℕ) (how : FreadEnd)
  | destroy (reader : TimerPtr)

namespace System

variable {T : Type u}

/-- A run loop without timers and readers. -/
def init [Zero T] (now : T) : System T := { loop := .init now }

/-- A reader, with the flag of its timer. -/
def reader (s : System T) (a : TimerPtr) : AsyncFileReader :=
  ⟨(s.members a).fp, (s.members a).buffer, decide (a ∈ s.loop.timers)⟩

/-- The members that a call has left behind. -/
def setMembers (s : System T) (a : TimerPtr) (r : AsyncFileReader) : System T :=
  { s with members := Function.update s.members a ⟨r.fp, r.buffer⟩ }

/-- The timer that the program gives a call. -/
def named : Timers.Action T → Option TimerPtr
  | .construct timer | .set timer _ | .cancel timer | .destroy timer => some timer
  | _ => none

/-- `onTimer` of a reader, up to the call of its delegate. -/
def onTimer (s : System T) : Option TimerPtr → System T
  | some a => s.setMembers a (s.reader a).onTimer.2
  | none => s

section Step

variable [LinearOrder T]

/-- The reader that a step of the loop calls. -/
def calls (s : System T) : Timers.Action T → Option TimerPtr
  | .checkTimers => s.loop.due.filter fun timer => s.readers.serial timer ≠ none
  | _ => none

variable [Add T] [Zero T]

/-- One step; a `read` has a positive size.  The timer of a reader is private, so the program has
no other way to it than the reader. -/
def step (s : System T) : Act T → Option (System T)
  | .loop act =>
      if (named act).all (s.readers.serial · = none) then
        (s.loop.step act).map fun loop => { s with loop := loop }.onTimer (s.calls act)
      else none
  | .construct a content =>
      (s.loop.step (.construct a)).bind fun loop =>
        (s.readers.construct a content).map fun readers =>
          { loop, readers, members := Function.update s.members a ⟨⟨[], content, false⟩, []⟩ }
  | .read a size how =>
      if s.loop.inUserCode ∧ s.readers.serial a ≠ none then
        ((s.reader a).step (.read size how)).bind fun r =>
          -- `read` has returned early where a chunk waits
          if (s.reader a).buffer ≠ [] then some s
          else (s.loop.step (.set a 0)).map fun loop => { s with loop := loop }.setMembers a r
      else none
  | .destroy a =>
      if s.readers.serial a = none then none
      else (s.loop.step (.destroy a)).map fun loop =>
        { s with loop := loop, readers := s.readers.destroy a }

end Step

/-- What a step is to a reader: what it goes through, and what it is like before. -/
def event [LinearOrder T] (s : System T) :
    Act T → Option (ℕ × (AsyncFileReader × AsyncFileReader.Action))
  | .loop act => (s.calls act).bind fun a =>
      (s.readers.serial a).map fun i => (i, (s.reader a, .fire))
  | .read a size how => (s.readers.serial a).map fun i => (i, (s.reader a, .read size how))
  | _ => none

/-! ## What the loop does to the timer of a reader -/

section Loop

variable [LinearOrder T] {l l' : Timers.State T} {act : Timers.Action T} {a : TimerPtr}

omit [LinearOrder T] in
/-- The deadline of a timer says whether it is in the deque, and when it is due. -/
theorem mem_timers_congr (h : l'.deadlines.deadline a = l.deadlines.deadline a) :
    (a ∈ l'.timers ↔ a ∈ l.timers) ∧ (a ∈ l'.timers → l'.fire a = l.fire a) := by
  have hiff : ∀ due, a ∈ l'.timers ∧ l'.fire a = due ↔ a ∈ l.timers ∧ l.fire a = due := by
    intro due
    rw [← Timers.State.deadline_eq_some, ← Timers.State.deadline_eq_some, h]
  refine ⟨⟨fun hmem => ((hiff _).mp ⟨hmem, rfl⟩).1, fun hmem => ((hiff _).mpr ⟨hmem, rfl⟩).1⟩, ?_⟩
  exact fun hmem => ((hiff _).mp ⟨hmem, rfl⟩).2.symm

variable [Add T] [Zero T]

/-- A step about other timers leaves a timer as it is. -/
theorem timer_other (hs : l.Sorted) (h : l.step act = some l')
    (hnamed : named act ≠ some a) (hcalled : act = .checkTimers → l.due ≠ some a) :
    (a ∈ l'.timers ↔ a ∈ l.timers) ∧ (a ∈ l'.timers → l'.fire a = l.fire a) := by
  apply mem_timers_congr
  have hmoves := hs.moves (Timers.State.step_effect h)
  cases hlabel : l.label act with
  | none =>
      rw [hlabel] at hmoves
      rw [hmoves]
  | some b =>
      rw [hlabel] at hmoves
      refine Deadlines.Step.deadline_other hmoves ?_
      cases act with
      | tick now =>
          obtain rfl := Option.some.inj hlabel
          rfl
      | set timer time | cancel timer | destroy timer =>
          obtain rfl := Option.some.inj hlabel
          have hne : timer ≠ a := by
            rintro rfl
            exact hnamed rfl
          simp [hne]
      | checkTimers =>
          obtain ⟨timer, hdue, rfl⟩ := Option.map_eq_some_iff.mp hlabel
          have hne : timer ≠ a := by
            rintro rfl
            exact hcalled rfl hdue
          simp [hne]
      | construct _ | registerMsg | deregisterMsg | stop | run | wake _ | ret => cases hlabel

/-- A timer that is set waits for its time. -/
theorem timer_set {time : T} (hs : l.Sorted) (h : l.step (.set a time) = some l') :
    a ∈ l'.timers ∧ l'.fire a = l.clock + time := by
  have hmoves : Deadlines.Step l.deadlines (.set a (l.clock + time)) l'.deadlines :=
    hs.moves (Timers.State.step_effect h)
  rw [← Timers.State.deadline_eq_some]
  generalize l'.deadlines = m at hmoves
  cases hmoves
  exact Function.update_self _ _ _

/-- A timer that is called was waiting, and waits no more. -/
theorem timer_called (hs : l.Sorted) (h : l.step .checkTimers = some l')
    (hdue : l.due = some a) : a ∈ l.timers ∧ a ∉ l'.timers := by
  have heffect := Timers.State.step_effect h
  have hlabel : l.label .checkTimers = some (.fire a) := congrArg (Option.map _) hdue
  rw [hlabel] at heffect
  cases heffect with
  | fire _ timers _ _ _ _ _ =>
      have hnodup := hs.nodup
      rw [timers, List.nodup_cons] at hnodup
      exact ⟨by rw [timers]; exact List.mem_cons_self, hnodup.1⟩

/-- A timer lives on unless it is disarmed. -/
theorem alive_of_step (h : l.step act = some l') (hlabel : l.label act ≠ some (.disarm a))
    (halive : a ∈ l.alive) : a ∈ l'.alive := by
  have heffect := Timers.State.step_effect h
  generalize l.label act = b at heffect hlabel
  cases heffect with
  | tick _ _ _ _ _ _ alive | set _ _ _ _ _ _ alive _ | fire _ _ _ _ _ alive _ =>
      exact alive ▸ halive
  | disarm timer _ _ _ alive _ =>
      refine alive a halive ?_
      rintro rfl
      exact hlabel rfl
  | none _ _ _ alive _ => exact alive halive

/-- A timer is constructed where none lives, and is not set. -/
theorem timer_construct (hs : l.Sorted) (h : l.step (.construct a) = some l') :
    a ∈ l'.alive ∧ a ∉ l'.timers := by
  have huser : l.userStep (.construct a) = some l' := by
    simp only [Timers.State.step] at h
    split_ifs at h
    exact h
  simp only [Timers.State.userStep] at huser
  split_ifs at huser with hfree
  obtain rfl := Option.some.inj huser
  exact ⟨Finset.mem_insert_self a l.alive, fun hmem => hfree (hs.alive a hmem)⟩

theorem clock_le_of_step (h : l.step act = some l') : l.clock ≤ l'.clock := by
  have heffect := Timers.State.step_effect h
  generalize l.label act = b at heffect
  cases heffect with
  | tick now clock forward _ _ _ _ => exact clock ▸ forward
  | set _ _ _ _ _ _ _ clock | disarm _ _ _ _ _ clock | fire _ _ _ _ _ _ clock
  | none _ _ _ _ clock => exact clock.ge

end Loop

/-! ## One step -/

/-- **What every step keeps**: the deque is in order, and the timers of the readers live. -/
structure Ok [LinearOrder T] (s : System T) : Prop where
  sorted : s.loop.Sorted
  alive : ∀ a i, s.readers.serial a = some i → a ∈ s.loop.alive

/-- Two states in which a reader is the same. -/
theorem reader_congr {s t : System T} {a : TimerPtr} (hmembers : t.members a = s.members a)
    (htimer : a ∈ t.loop.timers ↔ a ∈ s.loop.timers) : t.reader a = s.reader a := by
  unfold reader
  rw [hmembers, decide_eq_decide.mpr htimer]

@[simp] theorem loop_onTimer (s : System T) (o : Option TimerPtr) :
    (s.onTimer o).loop = s.loop := by
  cases o <;> rfl

@[simp] theorem readers_onTimer (s : System T) (o : Option TimerPtr) :
    (s.onTimer o).readers = s.readers := by
  cases o <;> rfl

theorem members_onTimer (s : System T) {o : Option TimerPtr} {a : TimerPtr} (h : o ≠ some a) :
    (s.onTimer o).members a = s.members a := by
  cases o with
  | none => rfl
  | some b =>
      refine Function.update_of_ne ?_ _ _
      rintro rfl
      exact h rfl

section Steps

variable [LinearOrder T] [Add T] [Zero T] {s t : System T} {act : Act T} {a : TimerPtr} {i : ℕ}
  {content : Bytes}

/-! A step of each kind, taken apart. -/

theorem step_loop {act : Timers.Action T} (h : s.step (.loop act) = some t) :
    ∃ loop, s.loop.step act = some loop ∧ (∀ b, named act = some b → s.readers.serial b = none) ∧
      t = { s with loop := loop }.onTimer (s.calls act) := by
  simp only [step] at h
  split_ifs at h with hprivate
  obtain ⟨loop, hloop, rfl⟩ := Option.map_eq_some_iff.mp h
  refine ⟨loop, hloop, fun b hb => ?_, rfl⟩
  rw [hb, Option.all_some, decide_eq_true_eq] at hprivate
  exact hprivate

theorem step_construct (h : s.step (.construct a content) = some t) :
    ∃ loop readers, s.loop.step (.construct a) = some loop ∧
      s.readers.construct a content = some readers ∧
      t = ⟨loop, readers, Function.update s.members a ⟨⟨[], content, false⟩, []⟩⟩ := by
  obtain ⟨loop, hloop, h⟩ := Option.bind_eq_some_iff.mp h
  obtain ⟨readers, hreaders, rfl⟩ := Option.map_eq_some_iff.mp h
  exact ⟨loop, readers, hloop, hreaders, rfl⟩

theorem step_read {size : ℕ} {how : FreadEnd} (h : s.step (.read a size how) = some t) :
    ∃ r, (s.reader a).step (.read size how) = some r ∧
      ((t = s ∧ r = s.reader a) ∨ (r.timer = true ∧
        ∃ loop, s.loop.step (.set a 0) = some loop ∧
          t = { s with loop := loop }.setMembers a r)) := by
  have hlives : s.loop.inUserCode = true ∧ s.readers.serial a ≠ none := by
    by_contra hnot
    rw [step, if_neg hnot] at h
    cases h
  rw [step, if_pos hlives] at h
  obtain ⟨r, hr, h⟩ := Option.bind_eq_some_iff.mp h
  refine ⟨r, hr, ?_⟩
  have hread := hr
  simp only [AsyncFileReader.step] at hread
  split_ifs at hread
  rcases AsyncFileReader.read_cases hread with ⟨hwaits, rfl⟩ | ⟨hempty, bytes, fp, -, rfl⟩
  · rw [if_pos hwaits] at h
    exact .inl ⟨(Option.some.inj h).symm, rfl⟩
  · rw [if_neg (not_not.mpr hempty)] at h
    obtain ⟨loop, hloop, rfl⟩ := Option.map_eq_some_iff.mp h
    exact .inr ⟨rfl, loop, hloop, rfl⟩

theorem step_destroy (h : s.step (.destroy a) = some t) :
    ∃ loop, s.loop.step (.destroy a) = some loop ∧
      t = { s with loop := loop, readers := s.readers.destroy a } := by
  simp only [step] at h
  split_ifs at h
  obtain ⟨loop, hloop, rfl⟩ := Option.map_eq_some_iff.mp h
  exact ⟨loop, hloop, rfl⟩

omit [Add T] [Zero T] in
/-- A reader that is called lives, and its timer is due. -/
theorem calls_eq_some {act : Timers.Action T} :
    s.calls act = some a ↔
      act = .checkTimers ∧ s.loop.due = some a ∧ ∃ i, s.readers.serial a = some i := by
  cases act with
  | checkTimers =>
      simp [calls, Option.filter_eq_some_iff, Option.ne_none_iff_exists']
  | _ => simp [calls]

omit [Add T] [Zero T] in
/-- The loop does not touch the timer of a reader that it does not call. -/
theorem not_called {act : Timers.Action T} (hserial : s.readers.serial a = some i)
    (hprivate : ∀ b, named act = some b → s.readers.serial b = none)
    (hcalls : s.calls act ≠ some a) :
    named act ≠ some a ∧ (act = .checkTimers → s.loop.due ≠ some a) := by
  constructor
  · intro hnamed
    rw [hprivate a hnamed] at hserial
    cases hserial
  · rintro hact hdue
    exact hcalls (calls_eq_some.mpr ⟨hact, hdue, i, hserial⟩)

omit [Zero T] in
theorem named_of_disarm {act : Timers.Action T} (h : s.loop.label act = some (.disarm a)) :
    named act = some a := by
  cases act with
  | cancel timer | destroy timer =>
      obtain ⟨rfl⟩ := Option.some.inj h
      rfl
  | checkTimers =>
      obtain ⟨timer, -, hfire⟩ := Option.map_eq_some_iff.mp h
      cases hfire
  | _ => cases h

theorem Ok.step (hok : s.Ok) (h : s.step act = some t) : t.Ok := by
  cases act with
  | loop act =>
      obtain ⟨loop, hloop, hprivate, rfl⟩ := step_loop h
      refine ⟨by simpa using hok.sorted.step hloop, fun a i hserial => ?_⟩
      rw [readers_onTimer] at hserial
      rw [loop_onTimer]
      refine alive_of_step hloop (fun hdisarm => ?_) (hok.alive a i hserial)
      rw [hprivate a (named_of_disarm hdisarm)] at hserial
      cases hserial
  | construct b content =>
      obtain ⟨loop, readers, hloop, hreaders, rfl⟩ := step_construct h
      refine ⟨hok.sorted.step hloop, fun a i hserial => ?_⟩
      by_cases hab : a = b
      · exact hab ▸ (timer_construct hok.sorted hloop).1
      · rw [Arena.serial_of_construct hreaders, if_neg hab] at hserial
        exact alive_of_step hloop nofun (hok.alive a i hserial)
  | read b size how =>
      obtain ⟨r, -, ⟨rfl, -⟩ | ⟨-, loop, hloop, rfl⟩⟩ := step_read h
      · exact hok
      · exact ⟨hok.sorted.step hloop, fun a i hserial =>
          alive_of_step hloop nofun (hok.alive a i hserial)⟩
  | destroy b =>
      obtain ⟨loop, hloop, rfl⟩ := step_destroy h
      refine ⟨hok.sorted.step hloop, fun a i hserial => ?_⟩
      by_cases hab : a = b
      · simp [hab] at hserial
      · rw [Arena.serial_destroy, if_neg hab] at hserial
        refine alive_of_step hloop (fun hdisarm => ?_) (hok.alive a i hserial)
        exact hab (Option.some.inj (named_of_disarm hdisarm)).symm

omit [Add T] [Zero T] in
/-- An event is about a reader that lives. -/
theorem event_cases {e : AsyncFileReader × AsyncFileReader.Action}
    (h : eventAbout event i s act = some e) : ∃ a, s.readers.serial a = some i ∧
      ((∃ l, act = .loop l ∧ s.calls l = some a) ∨ ∃ size how, act = .read a size how) := by
  rw [eventAbout_eq_some] at h
  cases act with
  | loop l =>
      obtain ⟨a, ha, h⟩ := Option.bind_eq_some_iff.mp h
      obtain ⟨j, hj, heq⟩ := Option.map_eq_some_iff.mp h
      obtain ⟨rfl, -⟩ := Prod.mk.inj heq
      exact ⟨a, hj, .inl ⟨l, rfl, ha⟩⟩
  | read a size how =>
      obtain ⟨j, hj, heq⟩ := Option.map_eq_some_iff.mp h
      obtain ⟨rfl, -⟩ := Prod.mk.inj heq
      exact ⟨a, hj, .inr ⟨size, how, rfl⟩⟩
  | construct _ _ | destroy _ => cases h

omit [Add T] [Zero T] in
/-- A step that neither calls a reader nor reads from it is no event of it. -/
theorem eventAbout_other (hserial : s.readers.serial a = some i)
    (hcalls : ∀ l, act = .loop l → s.calls l ≠ some a)
    (hread : ∀ size how, act ≠ .read a size how) : eventAbout event i s act = none := by
  rw [Option.eq_none_iff_forall_ne_some]
  intro e he
  obtain ⟨b, hb, hcase⟩ := event_cases he
  obtain rfl := Arena.serial_injective hserial hb
  rcases hcase with ⟨l, hl, hcalled⟩ | ⟨size, how, hact⟩
  · exact hcalls l hl hcalled
  · exact hread size how hact

/-- A call and a `read` leave the readers that there are. -/
theorem readers_of_event (h : s.step act = some t)
    (hevent : (∃ l, act = .loop l ∧ s.calls l = some a) ∨ ∃ size how, act = .read a size how) :
    t.readers = s.readers := by
  rcases hevent with ⟨l, rfl, -⟩ | ⟨size, how, rfl⟩
  · obtain ⟨loop, -, -, rfl⟩ := step_loop h
    rw [readers_onTimer]
  · obtain ⟨r, -, ⟨rfl, -⟩ | ⟨-, loop, -, rfl⟩⟩ := step_read h
    · rfl
    · rfl

/-- What a step of the loop is to a reader. -/
theorem reader_loop {act : Timers.Action T} (hok : s.Ok) (h : s.step (.loop act) = some t)
    (hserial : s.readers.serial a = some i) :
    Run (Fires AsyncFileReader.step) (s.reader a) (eventAbout event i s (.loop act)).toList
      (t.reader a) := by
  obtain ⟨loop, hloop, hprivate, rfl⟩ := step_loop h
  by_cases hcalls : s.calls act = some a
  · have hevent : eventAbout event i s (.loop act) = some (s.reader a, .fire) := by
      rw [eventAbout_eq_some, event, hcalls, Option.bind_some, hserial]
      rfl
    rw [hevent, Option.toList_some, hcalls]
    obtain ⟨rfl, hdue, -⟩ := calls_eq_some.mp hcalls
    obtain ⟨hset, hunset⟩ := timer_called hok.sorted hloop hdue
    have hbefore : (s.reader a).timer = true := decide_eq_true hset
    have hafter : { s with loop := loop }.reader a = { s.reader a with timer := false } := by
      simp [reader, hunset]
    have hnext : ({ s with loop := loop }.onTimer (some a)).reader a =
        { s.reader a with timer := false, buffer := [] } := by
      rw [onTimer, hafter, (AsyncFileReader.onTimer_spec _).1]
      simp [reader, setMembers, hunset]
    refine Run.cons_iff.mpr ⟨rfl, _, ?_, .nil⟩
    rw [hnext, Fires, AsyncFileReader.step, if_pos hbefore, (AsyncFileReader.onTimer_spec _).1]
  · have hevent : eventAbout event i s (.loop act) = none :=
      eventAbout_other hserial (fun l hl => by cases hl; exact hcalls)
        fun size how hact => by cases hact
    rw [hevent]
    obtain ⟨hnamed, hdue⟩ := not_called hserial hprivate hcalls
    refine Run.nil_iff.mpr (reader_congr (members_onTimer _ hcalls) ?_)
    rw [loop_onTimer]
    exact (timer_other hok.sorted hloop hnamed hdue).1

/-- A reader that a step of the program is not about stays as it is. -/
theorem reader_other {act : Timers.Action T} {loop : Timers.State T} (hok : s.Ok)
    (hloop : s.loop.step act = some loop) (hact : act ≠ .checkTimers) (hnamed : named act ≠ some a)
    (htimers : t.loop = loop) (hmembers : t.members a = s.members a) :
    t.reader a = s.reader a := by
  refine reader_congr hmembers ?_
  rw [htimers]
  exact (timer_other hok.sorted hloop hnamed fun h => absurd h hact).1

/-- **What a step is to a reader**: a step of the reader alone, or nothing; and a reader that was
not there before has just been opened. -/
theorem reader_step (hok : s.Ok) (h : s.step act = some t)
    (hobject : t.readers.object a = some (i, content)) :
    (s.readers.object a = some (i, content) ∧
      Run (Fires AsyncFileReader.step) (s.reader a) (eventAbout event i s act).toList
        (t.reader a)) ∨
    (i = s.readers.born ∧ t.reader a = .init content ∧ eventAbout event i s act = none) := by
  cases act with
  | loop act =>
      obtain ⟨loop, -, -, rfl⟩ := step_loop h
      rw [readers_onTimer] at hobject
      exact .inl ⟨hobject, reader_loop hok h (Arena.serial_eq_some.mpr ⟨_, hobject⟩)⟩
  | construct b c =>
      obtain ⟨loop, readers, hloop, hreaders, rfl⟩ := step_construct h
      rw [Arena.object_of_construct hreaders] at hobject
      split_ifs at hobject with hab
      · obtain ⟨rfl, rfl⟩ := Prod.mk.inj (Option.some.inj hobject)
        refine .inr ⟨rfl, ?_, rfl⟩
        simp [hab, reader, AsyncFileReader.init, (timer_construct hok.sorted hloop).2]
      · refine .inl ⟨hobject, Run.nil_iff.mpr ?_⟩
        refine reader_other hok hloop nofun ?_ rfl (Function.update_of_ne hab _ _)
        exact fun heq => hab (Option.some.inj heq).symm
  | read b size how =>
      obtain ⟨r, hr, hcase⟩ := step_read h
      rw [readers_of_event (a := b) h (.inr ⟨size, how, rfl⟩)] at hobject
      refine .inl ⟨hobject, ?_⟩
      have hserial := Arena.serial_eq_some.mpr ⟨content, hobject⟩
      by_cases hab : a = b
      · subst hab
        have hevent : eventAbout event i s (.read a size how) =
            some (s.reader a, .read size how) := by
          rw [eventAbout_eq_some, event, hserial]
          rfl
        rw [hevent, Option.toList_some]
        refine Run.cons_iff.mpr ⟨rfl, r, hr, Run.nil_iff.mpr ?_⟩
        rcases hcase with ⟨rfl, rfl⟩ | ⟨hset, loop, hloop, rfl⟩
        · rfl
        · simp [reader, setMembers, (timer_set hok.sorted hloop).1, ← hset]
      · have hevent : eventAbout event i s (.read b size how) = none :=
          eventAbout_other hserial (fun l hl => by cases hl)
            fun size' how' hact => hab (by cases hact; rfl)
        rw [hevent]
        refine Run.nil_iff.mpr ?_
        rcases hcase with ⟨rfl, -⟩ | ⟨-, loop, hloop, rfl⟩
        · rfl
        · refine reader_other hok hloop nofun ?_ rfl (Function.update_of_ne hab _ _)
          exact fun heq => hab (Option.some.inj heq).symm
  | destroy b =>
      obtain ⟨loop, hloop, rfl⟩ := step_destroy h
      rw [Arena.object_destroy] at hobject
      split_ifs at hobject with hab
      refine .inl ⟨hobject, Run.nil_iff.mpr ?_⟩
      refine reader_other hok hloop nofun ?_ rfl rfl
      exact fun heq => hab (Option.some.inj heq).symm

/-! ## Whole runs -/

/-- Runs of the loop with its readers. -/
abbrev Runs (s : System T) : List (System T × Act T) → System T → Prop :=
  Run (Fires step) s

/-- What has happened to a reader, as the trace of a reader alone. -/
abbrev readerTrace (i : ℕ) (tr : List (System T × Act T)) :
    List (AsyncFileReader × AsyncFileReader.Action) :=
  history event i tr

/-- **Every reader runs as if it were alone**, as long as it lives. -/
structure Alone (tr : List (System T × Act T)) (s : System T) : Prop where
  lives : ∀ a i content, s.readers.object a = some (i, content) →
    Run (Fires AsyncFileReader.step) (.init content) (readerTrace i tr) (s.reader a)
  born : ∀ i, i < s.readers.born → ∃ content r,
    Run (Fires AsyncFileReader.step) (.init content) (readerTrace i tr) r
  unborn : ∀ i, s.readers.born ≤ i → readerTrace i tr = []

variable {tr : List (System T × Act T)}

theorem born_step (h : s.step act = some t) : s.readers.born ≤ t.readers.born ∧
    ∀ i, s.readers.born ≤ i → eventAbout event i s act = none := by
  constructor
  · cases act with
    | loop l =>
        obtain ⟨loop, -, -, rfl⟩ := step_loop h
        rw [readers_onTimer]
    | construct b content =>
        obtain ⟨loop, readers, -, hreaders, rfl⟩ := step_construct h
        exact Arena.born_of_construct hreaders ▸ Nat.le_succ _
    | read b size how => rw [readers_of_event (a := b) h (.inr ⟨size, how, rfl⟩)]
    | destroy b =>
        obtain ⟨loop, -, rfl⟩ := step_destroy h
        exact le_rfl
  · intro i hi
    rw [Option.eq_none_iff_forall_ne_some]
    intro e he
    obtain ⟨a, hserial, -⟩ := event_cases he
    exact absurd (Arena.serial_lt_born hserial) (Nat.not_lt.mpr hi)

theorem Alone.step (h : Alone tr s) (hok : s.Ok) (hstep : s.step act = some t) :
    Alone (tr ++ [(s, act)]) t := by
  have hsnoc : ∀ i, readerTrace i (tr ++ [(s, act)]) =
      readerTrace i tr ++ (eventAbout event i s act).toList :=
    fun i => history_snoc event i tr s act
  obtain ⟨hborn, hunborn⟩ := born_step hstep
  have hlives : ∀ a i content, t.readers.object a = some (i, content) →
      Run (Fires AsyncFileReader.step) (.init content) (readerTrace i (tr ++ [(s, act)]))
        (t.reader a) := by
    intro a i content hobject
    rw [hsnoc]
    rcases reader_step hok hstep hobject with ⟨hbefore, hnow⟩ | ⟨rfl, hnew, hevent⟩
    · exact (h.lives a i content hbefore).append hnow
    · rw [h.unborn _ le_rfl, hevent, hnew]
      exact .nil
  refine ⟨hlives, fun i hi => ?_, fun i hi => ?_⟩
  · cases hevent : eventAbout event i s act with
    | some e =>
        obtain ⟨a, hserial, hcase⟩ := event_cases hevent
        obtain ⟨content, hobject⟩ := Arena.serial_eq_some.mp hserial
        rw [← readers_of_event hstep hcase] at hobject
        exact ⟨content, t.reader a, hlives a i content hobject⟩
    | none =>
        rw [hsnoc, hevent, Option.toList_none, List.append_nil]
        rcases Nat.lt_or_ge i s.readers.born with hold | hnew
        · exact h.born i hold
        · rw [h.unborn i hnew]
          exact ⟨[], _, .nil⟩
  · rw [hsnoc, h.unborn i (hborn.trans hi), hunborn i (hborn.trans hi)]
    rfl

theorem alone_of_run {now : T} (hrun : Runs (init now) tr s) : s.Ok ∧ Alone tr s := by
  induction hrun with
  | nil =>
      refine ⟨⟨Timers.State.sorted_init now, fun a i hserial => ?_⟩, fun a i content hobject => ?_,
        fun i hi => absurd hi (Nat.not_lt_zero i), fun _ _ => rfl⟩
      · simp [init, Arena.serial, Arena.object, Arena.empty] at hserial
      · simp [init, Arena.object, Arena.empty] at hobject
  | snoc _ hstep ih => exact ⟨ih.1.step hstep, ih.2.step ih.1 hstep⟩

/-- **The readers of a run loop are read as if each were alone on it.**  In every run with reads
of positive size and a clock that does not go back, with any number of readers and other timers,
opened and destroyed at whatever addresses and in callbacks too: what has happened to a reader is
a run of that reader alone, whether it still lives or not; and for one that lives this run ends in
the state it is in, so that what its delegate has been handed and what waits in `buffer` is the
front of its own file. -/
theorem readers_deliver {now : T} (hrun : Runs (init now) tr s) :
    (∀ i, i < s.readers.born → ∃ content r,
      Run (Fires AsyncFileReader.step) (.init content) (readerTrace i tr) r) ∧
    ∀ a i content, s.readers.object a = some (i, content) →
      Run (Fires AsyncFileReader.step) (.init content) (readerTrace i tr) (s.reader a) ∧
      flow AsyncFileReader.delivered (readerTrace i tr) ++ (s.reader a).buffer =
        (s.reader a).fp.consumed ∧
      (s.reader a).fp.consumed ++ (s.reader a).fp.remaining = content := by
  have halone := (alone_of_run hrun).2
  refine ⟨halone.born, fun a i content hobject => ?_⟩
  have hreader := halone.lives a i content hobject
  obtain ⟨hchunks, hfile, -⟩ := AsyncFileReader.delivers_file hreader
  exact ⟨hreader, hchunks, hfile⟩

/-- Two readers are read from before the loop runs.  The second is called first, as it was read
from at the same time but later; its delegate destroys it, and opens another file at its
address.  The first one is read from until it has met the end of its file. -/
def twoFiles : List (Act ℕ) :=
  [.construct 1 [1, 2, 3], .construct 2 [4], .read 1 2 .ok, .read 2 8 .ok,
    .loop .run, .loop (.wake false), .loop .checkTimers, .destroy 2, .construct 2 [5, 6],
    .loop .ret, .loop .checkTimers, .read 1 2 .ok, .loop .ret, .loop .checkTimers, .loop .ret]

theorem readers_deliver_example : ∃ s : System ℕ, exec step (init 0) twoFiles = some s ∧
    flow AsyncFileReader.delivered (readerTrace 0 (trace step (init 0) twoFiles)) = [1, 2, 3] ∧
    flow AsyncFileReader.delivered (readerTrace 1 (trace step (init 0) twoFiles)) = [4] ∧
    (∃ content r, Run (Fires AsyncFileReader.step) (.init content)
      (readerTrace 1 (trace step (init 0) twoFiles)) r) ∧
    (s.reader 1).fp.consumed ++ (s.reader 1).fp.remaining = [1, 2, 3] := by
  have hexec : (exec step (init 0) twoFiles).map
      (fun s => (s.readers.born, s.readers.object 1)) = some (3, some (0, [1, 2, 3])) := by decide
  obtain ⟨s, hs, hreaders⟩ := Option.map_eq_some_iff.mp hexec
  obtain ⟨hborn, hobject⟩ := Prod.mk.inj hreaders
  obtain ⟨hall, hlives⟩ := readers_deliver (exec_trace step (init 0) twoFiles s hs).1
  exact ⟨s, hs, by decide, by decide, hall 1 (by rw [hborn]; decide),
    (hlives 1 0 [1, 2, 3] hobject).2.2⟩

end Steps

/-! ## The end of a turn -/

/-- The timer of a reader, where it is set, is due. -/
def Prompt [LinearOrder T] (s : System T) : Prop :=
  ∀ a i, s.readers.serial a = some i → a ∈ s.loop.timers → s.loop.fire a ≤ s.loop.clock

section Prompt

variable [LinearOrder T] [AddZeroClass T] {s t : System T} {act : Act T} {a : TimerPtr} {i : ℕ}

/-- A timer that is left alone stays due. -/
theorem Prompt.other {act : Timers.Action T} {loop : Timers.State T} (h : s.Prompt) (hok : s.Ok)
    (hloop : s.loop.step act = some loop) (hserial : s.readers.serial a = some i)
    (hother : named act ≠ some a ∧ (act = .checkTimers → s.loop.due ≠ some a))
    (hset : a ∈ loop.timers) : loop.fire a ≤ loop.clock := by
  obtain ⟨hmem, hfire⟩ := timer_other hok.sorted hloop hother.1 hother.2
  rw [hfire hset]
  exact (h a i hserial (hmem.mp hset)).trans (clock_le_of_step hloop)

theorem Prompt.step (h : s.Prompt) (hok : s.Ok) (hstep : s.step act = some t) : t.Prompt := by
  intro a i hserial hset
  cases act with
  | loop l =>
      obtain ⟨loop, hloop, hprivate, rfl⟩ := step_loop hstep
      rw [readers_onTimer] at hserial
      rw [loop_onTimer] at hset ⊢
      by_cases hcalls : s.calls l = some a
      · obtain ⟨rfl, hdue, -⟩ := calls_eq_some.mp hcalls
        exact absurd hset (timer_called hok.sorted hloop hdue).2
      · exact h.other hok hloop hserial (not_called hserial hprivate hcalls) hset
  | construct b content =>
      obtain ⟨loop, readers, hloop, hreaders, rfl⟩ := step_construct hstep
      by_cases hab : a = b
      · exact absurd hset (hab ▸ (timer_construct hok.sorted hloop).2)
      · rw [Arena.serial_of_construct hreaders, if_neg hab] at hserial
        exact h.other hok hloop hserial ⟨fun heq => hab (Option.some.inj heq).symm, nofun⟩ hset
  | read b size how =>
      obtain ⟨r, -, ⟨rfl, -⟩ | ⟨-, loop, hloop, rfl⟩⟩ := step_read hstep
      · exact h a i hserial hset
      by_cases hab : a = b
      · -- set for the time at which it was set
        subst hab
        have hfire := (timer_set hok.sorted hloop).2
        rw [add_zero] at hfire
        exact hfire.trans_le (clock_le_of_step hloop)
      · exact h.other hok hloop hserial ⟨fun heq => hab (Option.some.inj heq).symm, nofun⟩ hset
  | destroy b =>
      obtain ⟨loop, hloop, rfl⟩ := step_destroy hstep
      by_cases hab : a = b
      · simp [hab] at hserial
      · rw [Arena.serial_destroy, if_neg hab] at hserial
        exact h.other hok hloop hserial ⟨fun heq => hab (Option.some.inj heq).symm, nofun⟩ hset

variable {tr : List (System T × Act T)} {now : T}

theorem prompt_of_run (hrun : Runs (init now) tr s) : s.Prompt := by
  induction hrun with
  | nil =>
      intro a i hserial
      simp [init, Arena.serial, Arena.object, Arena.empty] at hserial
  | snoc hrun hstep ih => exact ih.step (alone_of_run hrun).1 hstep

/-- At the end of a turn the timer of no reader is set. -/
theorem unset_of_turn (hok : s.Ok) (hprompt : s.Prompt)
    (hstep : s.step (.loop .checkTimers) = some t)
    (hturn : ∀ timer, ¬ s.loop.CallsTimer t.loop timer) (hserial : t.readers.serial a = some i) :
    a ∉ t.loop.timers := by
  obtain ⟨loop, hloop, -, rfl⟩ := step_loop hstep
  rw [readers_onTimer] at hserial
  rw [loop_onTimer] at hturn ⊢
  have hdue : s.loop.due = none := by
    rw [Option.eq_none_iff_forall_ne_some]
    intro timer hdue
    exact hturn timer ((Timers.State.callsTimer_iff hloop timer).mpr (congrArg (Option.map _) hdue))
  have hother := (timer_other (a := a) hok.sorted hloop nofun (fun _ => by simp [hdue])).1
  rw [hother]
  intro hset
  obtain ⟨first, rest, htimers⟩ := List.exists_cons_of_ne_nil (List.ne_nil_of_mem hset)
  have hfirst := (hok.sorted.first_le htimers a hset).trans (hprompt a i hserial hset)
  rw [Timers.State.due, htimers, List.head?_cons, Option.filter_some, if_pos (by simpa)] at hdue
  cases hdue

/-- **A turn of the run loop delivers all that has been read**, with reads of positive size and a
clock that does not go back.  Whenever the loop over the due timers ends, and `run` goes back to
its wait or returns, no reader has anything left for its delegate: nothing is in `buffer`, the
delegate has been handed all that was taken from the file, and a reader that has ever been read
from has been called since.  If this last call was `onEndOfFile`, the delegate has been handed the
whole file; if it was `onError`, an `fread` has failed; so one that reads on in `onChunk` gets to
one of these two within the turn. -/
theorem turn_delivers (hrun : Runs (init now) tr s) (hstep : s.step (.loop .checkTimers) = some t)
    (hturn : ∀ timer, ¬ s.loop.CallsTimer t.loop timer) :
    ∀ a i content, t.readers.object a = some (i, content) →
      (t.reader a).timer = false ∧ (t.reader a).buffer = [] ∧
      flow AsyncFileReader.delivered (readerTrace i (tr ++ [(s, .loop .checkTimers)])) =
        (t.reader a).fp.consumed ∧
      (readerTrace i (tr ++ [(s, .loop .checkTimers)]) = [] ∨
        ∃ pre r, readerTrace i (tr ++ [(s, .loop .checkTimers)]) = pre ++ [(r, .fire)] ∧
          (r.onTimer.1 = .onEndOfFile → flow AsyncFileReader.delivered pre = content) ∧
          (r.onTimer.1 = .onError → ∃ p ∈ pre, AsyncFileReader.MeetsError p.1 p.2)) := by
  intro a i content hobject
  have hnow := (alone_of_run (.snoc hrun hstep)).2.lives a i content hobject
  have hunset : (t.reader a).timer = false :=
    decide_eq_false (unset_of_turn (alone_of_run hrun).1 (prompt_of_run hrun) hstep hturn
      (Arena.serial_eq_some.mpr ⟨content, hobject⟩))
  obtain ⟨hempty, hlast⟩ := AsyncFileReader.at_rest hnow hunset
  obtain ⟨hchunks, -, hcalls⟩ := AsyncFileReader.delivers_file hnow
  rw [hempty, List.append_nil] at hchunks
  refine ⟨hunset, hempty, hchunks, hlast.imp_right ?_⟩
  rintro ⟨pre, r, htrace⟩
  exact ⟨pre, r, htrace, hcalls pre r [] htrace⟩

/-- The turn of `twoFiles` ends, and `run` returns. -/
theorem turn_delivers_example : ∃ s t : System ℕ, exec step (init 0) twoFiles = some s ∧
    s.step (.loop .checkTimers) = some t ∧ (t.reader 1).buffer = [] := by
  have hexec : ((exec step (init 0) twoFiles).bind fun s => (s.step (.loop .checkTimers)).map
      fun t => (t.loop.calls, t.readers.object 1)) = some ([], some (0, [1, 2, 3])) := by decide
  obtain ⟨s, hs, hnext⟩ := Option.bind_eq_some_iff.mp hexec
  obtain ⟨t, hstep, ht⟩ := Option.map_eq_some_iff.mp hnext
  obtain ⟨hcalls, hobject⟩ := Prod.mk.inj ht
  have hturn : ∀ timer, ¬ s.loop.CallsTimer t.loop timer := by
    rintro timer ⟨outer, -, hin⟩
    rw [hcalls] at hin
    cases hin
  have hrest := turn_delivers (exec_trace step (init 0) twoFiles s hs).1 hstep hturn 1 0 _ hobject
  exact ⟨s, t, hs, hstep, hrest.2.1⟩

end Prompt

end System

end FileReaders

end Craplib
