import Mathlib.Tactic.Common

/-!
# Computations that change a state, may throw and may be undefined

`Eff σ ε α` is the meaning of a piece of C++ code: it starts in a state of type
`σ` and either has no defined behaviour (`none`), or leaves a state together
with what it returns or throws.  An exception keeps the state reached when it
was thrown, which is what unwinding does.

`Triple P x Q` is partial correctness: a defined execution of `x` from a state
in `P` ends in `Q`, which is told whether `x` returned or threw.  Undefined
behaviour satisfies every triple.  The rules follow the constructors of the
code: `pure`, `bind`, `throw`, `attempt`, and the primitives.
-/

namespace Effects

universe u v w

variable {σ : Type u} {ε : Type v} {α β : Type w}

/-- A stateful computation that may throw an `ε`, and may be undefined. -/
def Eff (σ : Type u) (ε : Type v) (α : Type w) : Type (max u v w) :=
  σ → Option (Except ε α × σ)

namespace Eff

/-- Sequencing: an exception of `x` skips the rest. -/
def seq (x : Eff σ ε α) (f : α → Eff σ ε β) : Eff σ ε β := fun s =>
  match x s with
  | none => none
  | some (.ok a, t) => f a t
  | some (.error e, t) => some (.error e, t)

instance : Monad (Eff σ ε) where
  pure a := fun s => some (.ok a, s)
  bind := seq

/-- `throw e`. -/
def throw (e : ε) : Eff σ ε α := fun s => some (.error e, s)

/-- `try x`: what `x` threw is a value. -/
def attempt (x : Eff σ ε α) : Eff σ ε (Except ε α) := fun s =>
  match x s with
  | none => none
  | some (r, t) => some (.ok r, t)

/-- A piece of code that throws nothing. -/
def ofState (f : σ → Option (α × σ)) : Eff σ ε α := fun s =>
  match f s with
  | none => none
  | some (a, t) => some (.ok a, t)

/-- A piece of code that only reads the state. -/
def ofReader (f : σ → Option α) : Eff σ ε α := ofState fun s => (f s).map (·, s)

theorem pure_eq_some {a : α} {s t : σ} {r : Except ε α} :
    (pure a : Eff σ ε α) s = some (r, t) ↔ r = .ok a ∧ t = s := by
  show some (Except.ok a, s) = some (r, t) ↔ _
  simp only [Option.some.injEq, Prod.mk.injEq]
  exact ⟨fun h => ⟨h.1.symm, h.2.symm⟩, fun h => ⟨h.1.symm, h.2.symm⟩⟩

/-- How a sequence can end: its first part threw, or its second part ran. -/
theorem bind_eq_some {x : Eff σ ε α} {f : α → Eff σ ε β} {s t : σ} {r : Except ε β} :
    (x >>= f) s = some (r, t) ↔
      (∃ e, x s = some (.error e, t) ∧ r = .error e) ∨
        ∃ a u, x s = some (.ok a, u) ∧ f a u = some (r, t) := by
  show seq x f s = some (r, t) ↔ _
  unfold seq
  rcases hx : x s with _ | ⟨_ | _, u⟩
  · simp
  · simp only [Option.some.injEq, Prod.mk.injEq, Except.error.injEq, reduceCtorEq, false_and,
      exists_false, or_false]
    constructor
    · rintro ⟨rfl, rfl⟩
      exact ⟨_, ⟨rfl, rfl⟩, rfl⟩
    · rintro ⟨_, ⟨rfl, rfl⟩, rfl⟩
      exact ⟨rfl, rfl⟩
  · simp

theorem throw_eq_some {e : ε} {s t : σ} {r : Except ε α} :
    (throw e : Eff σ ε α) s = some (r, t) ↔ r = .error e ∧ t = s := by
  simp only [throw, Option.some.injEq, Prod.mk.injEq]
  exact ⟨fun h => ⟨h.1.symm, h.2.symm⟩, fun h => ⟨h.1.symm, h.2.symm⟩⟩

theorem attempt_eq_some {x : Eff σ ε α} {s t : σ} {r : Except ε (Except ε α)} :
    (attempt x) s = some (r, t) ↔ ∃ r', x s = some (r', t) ∧ r = .ok r' := by
  unfold attempt
  rcases x s with _ | ⟨r', u⟩
  · simp
  · simp only [Option.some.injEq, Prod.mk.injEq]
    constructor
    · rintro ⟨rfl, rfl⟩
      exact ⟨_, ⟨rfl, rfl⟩, rfl⟩
    · rintro ⟨_, ⟨rfl, rfl⟩, rfl⟩
      exact ⟨rfl, rfl⟩

theorem ofState_eq_some {f : σ → Option (α × σ)} {s t : σ} {r : Except ε α} :
    (ofState f : Eff σ ε α) s = some (r, t) ↔ ∃ a, f s = some (a, t) ∧ r = .ok a := by
  unfold ofState
  rcases f s with _ | ⟨a, u⟩
  · simp
  · simp only [Option.some.injEq, Prod.mk.injEq]
    constructor
    · rintro ⟨rfl, rfl⟩
      exact ⟨_, ⟨rfl, rfl⟩, rfl⟩
    · rintro ⟨_, ⟨rfl, rfl⟩, rfl⟩
      exact ⟨rfl, rfl⟩

theorem ofReader_eq_some {f : σ → Option α} {s t : σ} {r : Except ε α} :
    (ofReader f : Eff σ ε α) s = some (r, t) ↔ ∃ a, f s = some a ∧ r = .ok a ∧ t = s := by
  simp only [ofReader, ofState_eq_some, Option.map_eq_some_iff, Prod.mk.injEq]
  constructor
  · rintro ⟨a, ⟨_, hf, rfl, rfl⟩, rfl⟩
    exact ⟨_, hf, rfl, rfl⟩
  · rintro ⟨a, hf, rfl, rfl⟩
    exact ⟨a, ⟨a, hf, rfl, rfl⟩, rfl⟩

/-- What only reads the state hands on what it read. -/
theorem bind_ofReader_eq_some {f : σ → Option α} {g : α → Eff σ ε β} {s t : σ} {r : Except ε β} :
    (ofReader f >>= g) s = some (r, t) ↔ ∃ a, f s = some a ∧ g a s = some (r, t) := by
  simp only [bind_eq_some, ofReader_eq_some]
  constructor
  · rintro (⟨e, ⟨a, -, he, -⟩, -⟩ | ⟨a, u, ⟨a', hf, ha, rfl⟩, hg⟩)
    · simp at he
    · obtain rfl := Except.ok.inj ha
      exact ⟨a, hf, hg⟩
  · rintro ⟨a, hf, hg⟩
    exact Or.inr ⟨a, s, ⟨a, hf, rfl, rfl⟩, hg⟩

/-- What throws nothing hands on what it returned, in the state it left. -/
theorem bind_ofState_eq_some {f : σ → Option (α × σ)} {g : α → Eff σ ε β} {s t : σ}
    {r : Except ε β} :
    (ofState f >>= g) s = some (r, t) ↔ ∃ a u, f s = some (a, u) ∧ g a u = some (r, t) := by
  simp only [bind_eq_some, ofState_eq_some]
  constructor
  · rintro (⟨e, ⟨a, -, he⟩, -⟩ | ⟨a, u, ⟨a', hf, ha⟩, hg⟩)
    · simp at he
    · obtain rfl := Except.ok.inj ha
      exact ⟨a, u, hf, hg⟩
  · rintro ⟨a, u, hf, hg⟩
    exact Or.inr ⟨a, u, ⟨a, hf, rfl⟩, hg⟩

end Eff

/-- Every defined execution of `x` from a state in `P` ends in `Q`. -/
def Triple (P : σ → Prop) (x : Eff σ ε α) (Q : Except ε α → σ → Prop) : Prop :=
  ∀ s r t, P s → x s = some (r, t) → Q r t

namespace Triple

variable {P : σ → Prop} {Q : Except ε β → σ → Prop}

theorem pure {b : β} (h : ∀ s, P s → Q (.ok b) s) :
    Triple P (Pure.pure b : Eff σ ε β) Q := by
  intro s r t hP hx
  obtain ⟨rfl, rfl⟩ := Eff.pure_eq_some.mp hx
  exact h t hP

/-- The sequence rule, with the exits of the first part. -/
theorem bind {x : Eff σ ε α} {f : α → Eff σ ε β} {R : Except ε α → σ → Prop}
    (hx : Triple P x R) (hthrow : ∀ e s, R (.error e) s → Q (.error e) s)
    (hf : ∀ a, Triple (R (.ok a)) (f a) Q) : Triple P (x >>= f) Q := by
  intro s r t hP hrun
  rcases Eff.bind_eq_some.mp hrun with ⟨e, hfst, rfl⟩ | ⟨a, u, hfst, hsnd⟩
  · exact hthrow e t (hx s _ t hP hfst)
  · exact hf a u r t (hx s _ u hP hfst) hsnd

theorem throw {e : ε} (h : ∀ s, P s → Q (.error e) s) :
    Triple P (Eff.throw e : Eff σ ε β) Q := by
  intro s r t hP hx
  obtain ⟨rfl, rfl⟩ := Eff.throw_eq_some.mp hx
  exact h t hP

theorem attempt {x : Eff σ ε α} {R : Except ε α → σ → Prop} (hx : Triple P x R) :
    Triple P (Eff.attempt x) fun r t => ∃ r', r = .ok r' ∧ R r' t := by
  intro s r t hP hrun
  obtain ⟨r', hx', rfl⟩ := Eff.attempt_eq_some.mp hrun
  exact ⟨r', rfl, hx s r' t hP hx'⟩

theorem ofState {f : σ → Option (β × σ)}
    (h : ∀ s b t, P s → f s = some (b, t) → Q (.ok b) t) :
    Triple P (Eff.ofState f : Eff σ ε β) Q := by
  intro s r t hP hx
  obtain ⟨b, hf, rfl⟩ := Eff.ofState_eq_some.mp hx
  exact h s b t hP hf

theorem ofReader {f : σ → Option β} (h : ∀ s b, P s → f s = some b → Q (.ok b) s) :
    Triple P (Eff.ofReader f : Eff σ ε β) Q := by
  intro s r t hP hx
  obtain ⟨b, hf, rfl, rfl⟩ := Eff.ofReader_eq_some.mp hx
  exact h t b hP hf

/-- The rule of consequence. -/
theorem weaken {x : Eff σ ε β} {P' : σ → Prop} {Q' : Except ε β → σ → Prop}
    (h : Triple P x Q) (hP : ∀ s, P' s → P s) (hQ : ∀ r s, Q r s → Q' r s) :
    Triple P' x Q' :=
  fun s r t hs hx => hQ r t (h s r t (hP s hs) hx)

end Triple

end Effects
