import Mathlib.Logic.Function.Basic
import Mathlib.Order.Lattice
import Craplib.Lib.Histories

/-!
# A map of deadlines under a clock

What a set of timers is for: a map that gives some of the keys a deadline, and a clock that
goes forward.  A key may be given a deadline, may lose it, and may *fire*: only a key that
has a deadline, only when the clock has reached it, never before a key with an earlier
deadline, and it loses the deadline when it does.

`deadline_eq_some_iff` reads the map off the history of a key, and `set_before_fired` says
what a key that fires has gone through just before.
-/

namespace Machine

universe u v

/-- A clock and the deadlines of the keys that are armed. -/
@[ext] structure Deadlines (ι : Type u) (T : Type v) where
  clock : T
  deadline : ι → Option T

namespace Deadlines

variable {ι : Type u} {T : Type v}

/-- Nothing is armed. -/
def init (now : T) : Deadlines ι T := { clock := now, deadline := fun _ => none }

/-- What happens to the map and its clock. -/
inductive Action (ι : Type u) (T : Type v)
  | tick (now : T)
  | set (key : ι) (due : T)
  | disarm (key : ι)
  | fire (key : ι)

/-- What happens to one key. -/
inductive Event (T : Type v)
  | set (due : T)
  | disarmed
  | fired
deriving DecidableEq

/-- The key that an action is about, and what it does to it. -/
def event (_ : Deadlines ι T) : Action ι T → Option (ι × Event T)
  | .tick _ => none
  | .set key due => some (key, .set due)
  | .disarm key => some (key, .disarmed)
  | .fire key => some (key, .fired)

variable [DecidableEq ι]

/-- The history of a key in a run of the map. -/
abbrev keyHistory (key : ι) (tr : List (Deadlines ι T × Action ι T)) : List (Event T) :=
  history event key tr

section About

variable (key : ι) (m : Deadlines ι T)

@[simp] theorem eventAbout_tick (now : T) : eventAbout event key m (.tick now) = none := rfl

@[simp] theorem eventAbout_set (key' : ι) (due : T) :
    eventAbout event key m (.set key' due) = if key' = key then some (.set due) else none := rfl

@[simp] theorem eventAbout_disarm (key' : ι) :
    eventAbout event key m (.disarm key') = if key' = key then some .disarmed else none := rfl

@[simp] theorem eventAbout_fire (key' : ι) :
    eventAbout event key m (.fire key') = if key' = key then some .fired else none := rfl

end About

variable [LinearOrder T]

/-- The steps of the map. -/
inductive Step : Deadlines ι T → Action ι T → Deadlines ι T → Prop
  | tick {m : Deadlines ι T} {now : T} (h : m.clock ≤ now) :
      Step m (.tick now) { m with clock := now }
  | set {m : Deadlines ι T} (key : ι) (due : T) :
      Step m (.set key due) { m with deadline := Function.update m.deadline key (some due) }
  | disarm {m : Deadlines ι T} (key : ι) :
      Step m (.disarm key) { m with deadline := Function.update m.deadline key none }
  | fire {m : Deadlines ι T} {key : ι} {due : T} (armed : m.deadline key = some due)
      (reached : due ≤ m.clock)
      (earliest : ∀ other due', m.deadline other = some due' → due ≤ due') :
      Step m (.fire key) { m with deadline := Function.update m.deadline key none }

variable {now : T} {tr : List (Deadlines ι T × Action ι T)} {m : Deadlines ι T}

/-- A step that is not about a key leaves its deadline. -/
theorem Step.deadline_other {m' : Deadlines ι T} {act : Action ι T} {key : ι} (h : Step m act m')
    (hother : eventAbout event key m act = none) : m'.deadline key = m.deadline key := by
  cases h with
  | tick _ => rfl
  | set key' due | disarm key' | @fire key' _ _ _ _ =>
      refine Function.update_of_ne ?_ _ _
      rintro rfl
      simp at hother

/-- A key has a deadline exactly when the last thing that happened to it is that it was
given this deadline. -/
theorem deadline_eq_some_iff (hrun : Run Step (init now) tr m) (key : ι) (due : T) :
    m.deadline key = some due ↔ (keyHistory key tr).getLast? = some (.set due) := by
  induction hrun with
  | nil => simp [init, keyHistory]
  | @snoc tr m m' act _ hstep ih =>
      rw [keyHistory, history_snoc]
      cases hstep with
      | tick _ => simpa using ih
      | set key' due' =>
          by_cases hkey : key' = key
          · simp [hkey]
          · simpa [hkey, Function.update_of_ne (Ne.symm hkey)] using ih
      | disarm key' | @fire key' _ _ _ _ =>
          by_cases hkey : key' = key
          · simp [hkey]
          · simpa [hkey, Function.update_of_ne (Ne.symm hkey)] using ih

/-- What a key that fires has gone through just before is that it was set. -/
theorem set_before_fired (hrun : Run Step (init now) tr m) (key : ι)
    {before after : List (Event T)} (hsplit : keyHistory key tr = before ++ .fired :: after) :
    ∃ due, before.getLast? = some (.set due) := by
  induction hrun generalizing before after with
  | nil => simp [keyHistory] at hsplit
  | @snoc tr m m' act hrun hstep ih =>
      rw [keyHistory, history_snoc] at hsplit
      cases hevent : eventAbout event key m act with
      | none =>
          rw [hevent, Option.toList_none, List.append_nil] at hsplit
          exact ih hsplit
      | some e =>
          rw [hevent, Option.toList_some] at hsplit
          induction after using List.reverseRecOn with
          | nil =>
              obtain ⟨hbefore, hlast⟩ := List.append_inj' hsplit rfl
              rw [List.cons.injEq] at hlast
              rw [hlast.1, eventAbout_eq_some] at hevent
              cases hstep with
              | tick _ | set _ _ | disarm _ => simp [event] at hevent
              | @fire key' due armed _ _ =>
                  have hkey : key' = key := by simpa [event] using hevent
                  rw [hkey] at armed
                  exact ⟨due, hbefore ▸ (deadline_eq_some_iff hrun key due).mp armed⟩
          | append_singleton after x _ =>
              rw [← List.cons_append, ← List.append_assoc] at hsplit
              exact ih (List.append_inj' hsplit rfl).1

end Deadlines

end Machine
