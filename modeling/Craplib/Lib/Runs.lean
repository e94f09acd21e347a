import Mathlib.Data.List.Induction
import Mathlib.Tactic.Common

/-!
# Runs of labelled transition systems

A system is given by its step relation `step : σ → α → σ → Prop`: in state `s`
the action `a` may lead to `t`.  A *run* is a finite sequence of steps, and its
trace pairs every action with the state it was taken in, so that a condition on
steps ("the guard held when the action was taken") and a statement about every
state passed are both statements about the trace.

* `Run step s tr t` — the run, built by appending steps, so that an induction on
  it is an induction on "what has happened so far".
* `visited tr t` — every state of the run, the last one included.
* `Run.invariant` — what every step keeps holds at the end;
  `Run.invariant_visited` — and in every state passed; `Run.invariant_good` and
  `Run.invariant_steps` — the same for steps that meet a condition.
* `Run.visited_iff_steps` — the blame rule: when steps that meet a condition
  keep an invariant and the first step that does not meet it breaks the
  property, the property holds all along a run exactly when every step meets the
  condition.  `Run.visited_iff_good` is the rule for a condition on the steps alone.
* `Run.prefixes_iff_steps`, `Run.prefixes_iff_good` — the blame rules for properties of what
  has happened so far.
* `Run.exists_goal` — a measure that some step always lowers leads to the goal.
* `Run.refine` — an abstraction function that every step either respects or
  does not change carries a run to its projection, a run of the abstract system;
  `Run.refine_many` — the same where a step stands for several abstract ones.
-/

namespace Machine

universe u v w x

variable {σ : Type u} {α : Type v}

/-- A finite run of `step` from `s` to the last state, with its trace of
(state, action) pairs in order. -/
inductive Run (step : σ → α → σ → Prop) (s : σ) : List (σ × α) → σ → Prop
  | nil : Run step s [] s
  | snoc {tr : List (σ × α)} {t u : σ} {a : α} :
      Run step s tr t → step t a u → Run step s (tr ++ [(t, a)]) u

/-- The states a run passes through, in order: the state before each action, and
the state the run ends in. -/
def visited (tr : List (σ × α)) (last : σ) : List σ := tr.map Prod.fst ++ [last]

/-- The actions of a trace. -/
def actions (tr : List (σ × α)) : List α := tr.map Prod.snd

/-- The step relation of a system whose steps are a partial function. -/
def Fires (next : σ → α → Option σ) (s : σ) (a : α) (t : σ) : Prop := next s a = some t

/-- Execute a list of actions of a functional system; `none` when one of them
is not enabled. -/
def exec (next : σ → α → Option σ) : σ → List α → Option σ
  | s, [] => some s
  | s, a :: rest => (next s a).bind fun t => exec next t rest

/-- A step of an abstract system or, without an action, none. -/
def Moves {τ : Type w} {β : Type x} (astep : τ → β → τ → Prop) (s : τ) : Option β → τ → Prop
  | none, t => t = s
  | some b, t => astep s b t

/-- The abstract side of a trace: the states seen through `abs`, and the abstract actions
that the steps stand for; a step without one leaves no entry. -/
def project {τ : Type w} {β : Type x} (abs : σ → τ) (label : σ → α → Option β)
    (tr : List (σ × α)) : List (τ × β) :=
  tr.filterMap fun p => (label p.1 p.2).map fun b => (abs p.1, b)

theorem project_snoc {τ : Type w} {β : Type x} (abs : σ → τ) (label : σ → α → Option β)
    (tr : List (σ × α)) (s : σ) (a : α) :
    project abs label (tr ++ [(s, a)]) =
      project abs label tr ++ ((label s a).map fun b => (abs s, b)).toList := by
  unfold project
  rw [List.filterMap_append]
  cases h : label s a <;> simp [h]

@[simp] theorem mem_visited {tr : List (σ × α)} {last x : σ} :
    x ∈ visited tr last ↔ (∃ p ∈ tr, p.1 = x) ∨ x = last := by
  simp [visited]

theorem visited_snoc (tr : List (σ × α)) (t u : σ) (a : α) :
    visited (tr ++ [(t, a)]) u = visited tr t ++ [u] := by
  simp [visited]

@[simp] theorem actions_append (tr tr' : List (σ × α)) :
    actions (tr ++ tr') = actions tr ++ actions tr' := by
  simp [actions]

namespace Run

variable {step : σ → α → σ → Prop} {s t u : σ} {tr tr' : List (σ × α)}

theorem nil_iff : Run step s [] t ↔ t = s := by
  constructor
  · intro h
    generalize hnil : ([] : List (σ × α)) = tr at h
    cases h with
    | nil => rfl
    | snoc _ _ => simp at hnil
  · rintro rfl
    exact .nil

/-- The last step of a run. -/
theorem snoc_iff {p : σ × α} :
    Run step s (tr ++ [p]) u ↔ Run step s tr p.1 ∧ step p.1 p.2 u := by
  constructor
  · intro h
    generalize hfull : tr ++ [p] = full at h
    cases h with
    | nil => simp at hfull
    | snoc hrun hstep =>
        obtain ⟨rfl, hlast⟩ := List.append_inj' hfull rfl
        obtain rfl : p = _ := by simpa using hlast
        exact ⟨hrun, hstep⟩
  · rintro ⟨hrun, hstep⟩
    exact .snoc hrun hstep

/-- A run of one step. -/
theorem single {a : α} (h : step s a t) : Run step s [(s, a)] t := by
  simpa using Run.snoc (.nil : Run step s [] s) h

/-- Runs compose. -/
theorem append (h : Run step s tr t) (h' : Run step t tr' u) :
    Run step s (tr ++ tr') u := by
  induction h' with
  | nil => simpa using h
  | snoc _ hstep ih => simpa [List.append_assoc] using Run.snoc ih hstep

/-- A run splits at any point of its trace. -/
theorem split (h : Run step s (tr ++ tr') u) :
    ∃ t, Run step s tr t ∧ Run step t tr' u := by
  induction tr' using List.reverseRecOn generalizing u with
  | nil => exact ⟨u, by simpa using h, .nil⟩
  | append_singleton tr' p ih =>
      rw [← List.append_assoc, snoc_iff] at h
      obtain ⟨t, hpre, hpost⟩ := ih h.1
      exact ⟨t, hpre, .snoc hpost h.2⟩

/-- The first step of a run. -/
theorem cons_iff {p : σ × α} :
    Run step s (p :: tr) u ↔ p.1 = s ∧ ∃ t, step s p.2 t ∧ Run step t tr u := by
  constructor
  · intro h
    have h' : Run step s ([p] ++ tr) u := h
    obtain ⟨t, hone, hrest⟩ := split h'
    have hone' : Run step s ([] ++ [p]) t := hone
    obtain ⟨hnil, hstep⟩ := snoc_iff.mp hone'
    have hp := nil_iff.mp hnil
    exact ⟨hp, t, hp ▸ hstep, hrest⟩
  · rintro ⟨hp, t, hstep, hrest⟩
    obtain ⟨p₁, a⟩ := p
    obtain rfl : p₁ = s := hp
    exact append (single hstep) hrest

/-- Every step of a run is taken from a state the run reaches. -/
theorem of_mem (h : Run step s tr u) {p : σ × α} (hp : p ∈ tr) :
    ∃ pre post t, tr = pre ++ p :: post ∧ Run step s pre p.1 ∧ step p.1 p.2 t ∧
      Run step t post u := by
  obtain ⟨pre, post, rfl⟩ := List.append_of_mem hp
  obtain ⟨t, hpre, hrest⟩ := split h
  obtain ⟨rfl, t', hstep, hpost⟩ := cons_iff.mp hrest
  exact ⟨pre, post, t', rfl, hpre, hstep, hpost⟩

/-- A visited state is the end of a prefix of the run. -/
theorem of_mem_visited (h : Run step s tr u) {x : σ} (hx : x ∈ visited tr u) :
    ∃ pre, pre <+: tr ∧ Run step s pre x := by
  rcases mem_visited.mp hx with ⟨p, hp, rfl⟩ | rfl
  · obtain ⟨pre, post, -, rfl, hpre, -, -⟩ := h.of_mem hp
    exact ⟨pre, List.prefix_append _ _, hpre⟩
  · exact ⟨tr, List.prefix_rfl, h⟩

/-- What every step keeps holds at the end of a run. -/
theorem invariant {I : σ → Prop} (hstep : ∀ s a t, I s → step s a t → I t)
    (h : Run step s tr t) (hs : I s) : I t := by
  induction h with
  | nil => exact hs
  | snoc _ hlast ih => exact hstep _ _ _ ih hlast

/-- …and in every state the run passes. -/
theorem invariant_visited {I : σ → Prop} (hstep : ∀ s a t, I s → step s a t → I t)
    (h : Run step s tr t) (hs : I s) : ∀ x ∈ visited tr t, I x := by
  intro x hx
  obtain ⟨pre, -, hpre⟩ := h.of_mem_visited hx
  exact invariant hstep hpre hs

/-- What every step keeps, and does not hold at the end, held nowhere before. -/
theorem not_visited {I : σ → Prop} (hstep : ∀ s a t, I s → step s a t → I t)
    (h : Run step s tr u) (hu : ¬ I u) : ∀ x ∈ visited tr u, ¬ I x := by
  intro x hx hI
  rcases mem_visited.mp hx with ⟨p, hp, rfl⟩ | rfl
  · obtain ⟨_, _, t, -, -, hnext, hpost⟩ := h.of_mem hp
    exact hu (invariant hstep hpost (hstep _ _ _ hI hnext))
  · exact hu hI

/-- What the steps keep that meet a condition and end inside `Q` holds in every state of a
run of such steps. -/
theorem invariant_good {I Q : σ → Prop} {good : σ → α → Prop}
    (keep : ∀ s a t, I s → step s a t → good s a → Q s → Q t → I t) (h : Run step s tr u)
    (hs : I s) (hgood : ∀ p ∈ tr, good p.1 p.2) (hQ : ∀ x ∈ visited tr u, Q x) :
    ∀ x ∈ visited tr u, I x := by
  induction h with
  | nil => simpa [visited] using hs
  | @snoc tr t u a hrun hstep ih =>
      rw [visited_snoc] at hQ ⊢
      have hbefore := ih (fun p hp => hgood p (List.mem_append_left _ hp))
        fun x hx => hQ x (List.mem_append_left _ hx)
      intro x hx
      rcases List.mem_append.mp hx with hx | hx
      · exact hbefore x hx
      · obtain rfl := List.mem_singleton.mp hx
        exact keep t a x (hbefore t (by simp)) hstep (hgood (t, a) (by simp)) (hQ t (by simp))
          (hQ x (by simp))

/-- The same, without anything asked of the states. -/
theorem invariant_steps {I : σ → Prop} {good : σ → α → Prop}
    (keep : ∀ s a t, I s → step s a t → good s a → I t) (h : Run step s tr u) (hs : I s)
    (hgood : ∀ p ∈ tr, good p.1 p.2) : ∀ x ∈ visited tr u, I x :=
  invariant_good (Q := fun _ => True) (fun s a t hI hstep hnow _ _ => keep s a t hI hstep hnow) h
    hs hgood fun _ _ => trivial

/-- The first state a run visits is the one it starts in. -/
theorem start_mem_visited (h : Run step s tr u) : s ∈ visited tr u := by
  cases tr with
  | nil => simp [visited, nil_iff.mp h]
  | cons p rest => simp [visited, (cons_iff.mp h).1]

/-- **The blame rule.**  Let steps that meet `good` and end inside `Q` keep the
invariant `I`, let `I` give `P` and `Q`, and let a step out of `I` that does not
meet `good`, or that ends outside `Q`, end outside `P`.  Then `P` holds in every
state of a run exactly when every step of the run meets `good` and every state
lies in `Q`. -/
theorem visited_iff_steps {I P Q : σ → Prop} {good : σ → α → Prop}
    (keep : ∀ s a t, I s → step s a t → good s a → Q t → I t)
    (blame : ∀ s a t, I s → step s a t → ¬ (good s a ∧ Q t) → ¬ P t)
    (weaken : ∀ s, I s → P s ∧ Q s)
    (h : Run step s tr u) (hs : I s) :
    (∀ x ∈ visited tr u, P x) ↔
      (∀ p ∈ tr, good p.1 p.2) ∧ ∀ x ∈ visited tr u, Q x := by
  induction tr generalizing s with
  | nil =>
      obtain rfl := nil_iff.mp h
      simp [visited, weaken _ hs]
  | cons p rest ih =>
      obtain ⟨hp, t, hstep, hrest⟩ := cons_iff.mp h
      obtain ⟨s₀, a⟩ := p
      obtain rfl : s₀ = s := hp
      have hsplit : ∀ R : σ → Prop, (∀ x ∈ visited ((s₀, a) :: rest) u, R x) ↔
          R s₀ ∧ ∀ x ∈ visited rest u, R x := by
        simp [visited]
      rw [hsplit, hsplit, List.forall_mem_cons]
      have hfirst := hrest.start_mem_visited
      by_cases hgood : good s₀ a ∧ Q t
      · rw [ih hrest (keep _ _ _ hs hstep hgood.1 hgood.2)]
        have hnow := weaken _ hs
        exact ⟨fun h => ⟨⟨hgood.1, h.2.1⟩, hnow.2, h.2.2⟩,
          fun h => ⟨hnow.1, h.1.2, h.2.2⟩⟩
      · constructor
        · intro h
          exact absurd (h.2 t hfirst) (blame _ _ _ hs hstep hgood)
        · intro h
          exact absurd ⟨h.1.1, h.2.2 t hfirst⟩ hgood

/-- The blame rule for a condition on the steps alone. -/
theorem visited_iff_good {I P : σ → Prop} {good : σ → α → Prop}
    (keep : ∀ s a t, I s → step s a t → good s a → I t)
    (blame : ∀ s a t, I s → step s a t → ¬ good s a → ¬ P t) (weaken : ∀ s, I s → P s)
    (h : Run step s tr u) (hs : I s) :
    (∀ x ∈ visited tr u, P x) ↔ ∀ p ∈ tr, good p.1 p.2 := by
  have hsteps := visited_iff_steps (Q := fun _ => True) (P := P)
    (fun s a t hI hstep hnow _ => keep s a t hI hstep hnow)
    (fun s a t hI hstep hbad => blame s a t hI hstep fun hnow => hbad ⟨hnow, trivial⟩)
    (fun s hI => ⟨weaken s hI, trivial⟩) h hs
  rw [hsteps]
  exact and_iff_left fun _ _ => trivial

/-- What the steps keep that meet a condition on them and on what came before. -/
theorem invariant_past {I : List (σ × α) → σ → Prop} {good : List (σ × α) → σ × α → Prop}
    (keep : ∀ tr s' a t, Run step s tr s' → I tr s' → step s' a t → good tr (s', a) →
      I (tr ++ [(s', a)]) t)
    (hs : I [] s) (h : Run step s tr u) (hgood : ∀ pre p, pre ++ [p] <+: tr → good pre p) :
    I tr u := by
  induction h with
  | nil => exact hs
  | @snoc tr t u a hrun hstep ih =>
      have hbefore := ih fun pre p hpre => hgood pre p (hpre.trans (List.prefix_append _ _))
      exact keep tr t a u hrun hbefore hstep (hgood tr (t, a) List.prefix_rfl)

/-- **The blame rule, for what has happened so far.**  Let steps that meet `good` keep the
invariant `I`, let `I` give `P`, and let a step out of `I` that does not meet `good` end
outside `P`, all three of them told what has happened before.  Then `P` holds after every
part of a run exactly when every step of the run meets `good`. -/
theorem prefixes_iff_steps {I P : List (σ × α) → σ → Prop}
    {good : List (σ × α) → σ × α → Prop}
    (keep : ∀ tr s' a t, Run step s tr s' → I tr s' → step s' a t → good tr (s', a) →
      I (tr ++ [(s', a)]) t)
    (blame : ∀ tr s' a t, Run step s tr s' → I tr s' → step s' a t → ¬ good tr (s', a) →
      ¬ P (tr ++ [(s', a)]) t)
    (weaken : ∀ tr s', I tr s' → P tr s') (h : Run step s tr u) (hs : I [] s) :
    (∀ pre x, pre <+: tr → Run step s pre x → P pre x) ↔
      ∀ pre p, pre ++ [p] <+: tr → good pre p := by
  constructor
  · intro hP
    induction h with
    | nil =>
        intro pre p hpre
        simp at hpre
    | @snoc tr t u a hrun hstep ih =>
        have hbefore := ih fun pre x hpre hx => hP pre x (hpre.trans (List.prefix_append _ _)) hx
        intro pre p hpre
        rcases List.prefix_concat_iff.mp hpre with heq | hpre
        · obtain ⟨rfl, hlast⟩ := List.append_inj' heq rfl
          obtain rfl : p = (t, a) := by simpa using hlast
          by_contra hbad
          have hI := invariant_past keep hs hrun hbefore
          exact blame _ _ _ _ hrun hI hstep hbad (hP _ _ List.prefix_rfl (.snoc hrun hstep))
        · exact hbefore pre p hpre
  · intro hgood pre x hpre hx
    exact weaken pre x (invariant_past keep hs hx fun pre' p hpre' =>
      hgood pre' p (hpre'.trans hpre))

/-- The same, for a condition on the steps alone. -/
theorem prefixes_iff_good {I P : List (σ × α) → σ → Prop} {good : σ → α → Prop}
    (keep : ∀ tr s' a t, Run step s tr s' → I tr s' → step s' a t → good s' a →
      I (tr ++ [(s', a)]) t)
    (blame : ∀ tr s' a t, Run step s tr s' → I tr s' → step s' a t → ¬ good s' a →
      ¬ P (tr ++ [(s', a)]) t)
    (weaken : ∀ tr s', I tr s' → P tr s') (h : Run step s tr u) (hs : I [] s) :
    (∀ pre x, pre <+: tr → Run step s pre x → P pre x) ↔ ∀ p ∈ tr, good p.1 p.2 := by
  have hsteps : (∀ pre x, pre <+: tr → Run step s pre x → P pre x) ↔
      ∀ pre p, pre ++ [p] <+: tr → good p.1 p.2 := prefixes_iff_steps keep blame weaken h hs
  refine hsteps.trans ⟨fun hall p hp => ?_, fun hall pre p hpre => hall p (hpre.subset (by simp))⟩
  obtain ⟨pre, post, rfl⟩ := List.append_of_mem hp
  exact hall pre p (by simp)

/-- Where every state of `I` outside the goal has a step that stays in `I` and lowers a
measure, there is a run to the goal. -/
theorem exists_goal {I goal : σ → Prop} (measure : σ → ℕ)
    (progress : ∀ s, I s → ¬ goal s → ∃ a t, step s a t ∧ I t ∧ measure t < measure s)
    (hs : I s) : ∃ tr t, Run step s tr t ∧ I t ∧ goal t := by
  induction hn : measure s using Nat.strongRecOn generalizing s with
  | ind n ih =>
      by_cases hgoal : goal s
      · exact ⟨[], s, .nil, hs, hgoal⟩
      · obtain ⟨a, s', hstep, hs', hlt⟩ := progress s hs hgoal
        obtain ⟨tr, t, hrun, hend⟩ := ih (measure s') (hn ▸ hlt) hs' rfl
        exact ⟨(s, a) :: tr, t, cons_iff.mpr ⟨rfl, s', hstep, hrun⟩, hend⟩

/-- **Refinement.**  Let every step that is taken where the invariant holds be, seen
through `abs`, the abstract move that it is labelled with.  Then the projection of a run is
a run of the abstract system. -/
theorem refine {τ : Type w} {β : Type x} {astep : τ → β → τ → Prop} {I : σ → Prop}
    {abs : σ → τ} {label : σ → α → Option β} (keep : ∀ s a t, I s → step s a t → I t)
    (sim : ∀ s a t, I s → step s a t → Moves astep (abs s) (label s a) (abs t))
    (h : Run step s tr t) (hs : I s) :
    Run astep (abs s) (project abs label tr) (abs t) := by
  induction h with
  | nil => exact .nil
  | @snoc tr t u a hrun hstep ih =>
      have hmoves := sim t a u (invariant keep hrun hs) hstep
      rw [project_snoc]
      cases hb : label t a with
      | none =>
          rw [hb, Moves] at hmoves
          rw [hmoves]
          simpa using ih
      | some b =>
          rw [hb, Moves] at hmoves
          exact .snoc ih hmoves

/-- **Refinement, where a step stands for several.**  Let every step that is taken where the
invariant holds be, seen through `abs`, a run of the abstract system with the actions that it is
labelled with.  Then a run is an abstract run, whose actions are those of its steps in order. -/
theorem refine_many {τ : Type w} {β : Type x} {astep : τ → β → τ → Prop} {I : σ → Prop}
    {abs : σ → τ} {label : σ → α → List β} (keep : ∀ s a t, I s → step s a t → I t)
    (sim : ∀ s a t, I s → step s a t →
      ∃ atr, Run astep (abs s) atr (abs t) ∧ actions atr = label s a)
    (h : Run step s tr t) (hs : I s) :
    ∃ atr, Run astep (abs s) atr (abs t) ∧ actions atr = tr.flatMap fun p => label p.1 p.2 := by
  induction h with
  | nil => exact ⟨[], .nil, rfl⟩
  | @snoc tr t u a hrun hstep ih =>
      obtain ⟨atr, habs, hacts⟩ := ih
      obtain ⟨atr', hmore, hlabel⟩ := sim t a u (invariant keep hrun hs) hstep
      refine ⟨atr ++ atr', habs.append hmore, ?_⟩
      rw [actions_append, hacts, hlabel, List.flatMap_append, List.flatMap_singleton]

end Run

/-- The trace of an execution, as far as it goes. -/
def trace (next : σ → α → Option σ) : σ → List α → List (σ × α)
  | _, [] => []
  | s, a :: rest => (s, a) :: ((next s a).elim [] fun t => trace next t rest)

/-- An execution of a functional system is a run of it. -/
theorem exec_trace (next : σ → α → Option σ) (s : σ) (as : List α) (t : σ)
    (h : exec next s as = some t) :
    Run (Fires next) s (trace next s as) t ∧ actions (trace next s as) = as := by
  induction as generalizing s with
  | nil =>
      obtain rfl : s = t := by simpa [exec] using h
      exact ⟨.nil, rfl⟩
  | cons a rest ih =>
      obtain ⟨s', hs', hrest⟩ := Option.bind_eq_some_iff.mp h
      obtain ⟨hrun, hact⟩ := ih _ hrest
      rw [trace, hs', Option.elim_some]
      exact ⟨Run.cons_iff.mpr ⟨rfl, s', hs', hrun⟩, by simpa [actions] using hact⟩

theorem exec_run (next : σ → α → Option σ) (s : σ) (as : List α) (t : σ)
    (h : exec next s as = some t) :
    ∃ tr, Run (Fires next) s tr t ∧ actions tr = as :=
  ⟨trace next s as, exec_trace next s as t h⟩

end Machine
