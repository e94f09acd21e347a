import Mathlib.Data.List.Perm.Basic
import Craplib.Lib.Runs

/-!
# What flows through a part of a system

A step may bring items into a part of the system, and may take items out of it.  The
part *relays* them when they leave in the order they came in, each once: what goes out
followed by what is held afterwards is what was held before followed by what came in.

* `Relays.flow` — the law for a whole run, from the law for one step.
* `Conserves.flow` — the same for a part that lets its items go in any order, each once, where
  an invariant holds.
* `Run.restrict` — a run whose steps all meet a condition is a run of the system that
  has only such steps, so that a law of these steps is a law of the run.
* `Run.length_le` — steps that lower a measure come to an end.
-/

namespace Machine

universe u v w

variable {σ : Type u} {α : Type v} {β : Type w}

/-- What flowed along a trace, when the action `a` lets `f s a` through in `s`. -/
def flow (f : σ → α → List β) (tr : List (σ × α)) : List β := tr.flatMap fun p => f p.1 p.2

@[simp] theorem flow_nil (f : σ → α → List β) : flow f [] = [] := rfl

theorem flow_append (f : σ → α → List β) (tr tr' : List (σ × α)) :
    flow f (tr ++ tr') = flow f tr ++ flow f tr' :=
  List.flatMap_append

theorem flow_snoc (f : σ → α → List β) (tr : List (σ × α)) (s : σ) (a : α) :
    flow f (tr ++ [(s, a)]) = flow f tr ++ f s a := by
  simp [flow]

/-- Two flows at once, and one after the other. -/
theorem flow_append_perm (f g : σ → α → List β) (tr : List (σ × α)) :
    (flow f tr ++ flow g tr).Perm (flow (fun s a => f s a ++ g s a) tr) :=
  List.flatMap_append_perm tr _ _

/-- Two flows that agree at every step of a trace. -/
theorem flow_congr {f g : σ → α → List β} {tr : List (σ × α)}
    (h : ∀ p ∈ tr, f p.1 p.2 = g p.1 p.2) : flow f tr = flow g tr := by
  unfold flow
  rw [List.flatMap_def, List.flatMap_def, List.map_congr_left h]

/-- Every step takes items out at the front of what is held, and puts those that come in
behind it. -/
def Relays (step : σ → α → σ → Prop) (inn out : σ → α → List β) (held : σ → List β) : Prop :=
  ∀ s a t, step s a t → out s a ++ held t = held s ++ inn s a

namespace Relays

variable {step : σ → α → σ → Prop} {inn out : σ → α → List β} {held : σ → List β}

/-- **Along a run**, what went out followed by what is held is what was held at the
beginning followed by what came in. -/
theorem flow (h : Relays step inn out held) {s t : σ} {tr : List (σ × α)}
    (hrun : Run step s tr t) : flow out tr ++ held t = held s ++ flow inn tr := by
  induction hrun with
  | nil => simp
  | @snoc tr t u a _ hstep ih =>
      rw [flow_snoc, flow_snoc, List.append_assoc, h t a u hstep, ← List.append_assoc, ih,
        List.append_assoc]

end Relays

/-- Where `I` holds, no step loses an item or makes one up: what goes out and what is held
afterwards is what was held before and what came in. -/
def Conserves (step : σ → α → σ → Prop) (I : σ → Prop) (inn out : σ → α → List β)
    (held : σ → List β) : Prop :=
  ∀ s a t, I s → step s a t → (out s a ++ held t).Perm (held s ++ inn s a)

namespace Conserves

variable {step : σ → α → σ → Prop} {I : σ → Prop} {inn out : σ → α → List β} {held : σ → List β}

/-- **Along a run**, what went out and what is held is what was held at the beginning and what
came in. -/
theorem flow (h : Conserves step I inn out held) (keep : ∀ s a t, I s → step s a t → I t)
    {s t : σ} {tr : List (σ × α)} (hrun : Run step s tr t) (hs : I s) :
    (flow out tr ++ held t).Perm (held s ++ flow inn tr) := by
  induction hrun with
  | nil => simp
  | @snoc tr t u a hrun hstep ih =>
      rw [flow_snoc, flow_snoc, List.append_assoc, ← List.append_assoc (held s)]
      have hnow := h t a u (hrun.invariant keep hs) hstep
      refine (hnow.append_left _).trans ?_
      rw [← List.append_assoc]
      exact ih.append_right _

end Conserves

namespace Run

variable {step : σ → α → σ → Prop} {s t : σ} {tr : List (σ × α)}

/-- A run whose steps are all `good` is a run of the good steps. -/
theorem restrict {good : σ → α → Prop} (h : Run step s tr t) (hgood : ∀ p ∈ tr, good p.1 p.2) :
    Run (fun s a t => step s a t ∧ good s a) s tr t := by
  induction h with
  | nil => exact .nil
  | @snoc tr t u a _ hstep ih =>
      refine .snoc (ih fun p hp => hgood p (List.mem_append_left _ hp)) ⟨hstep, ?_⟩
      exact hgood (t, a) (by simp)

/-- A run takes no more steps than a measure allows that each of them lowers. -/
theorem length_le (measure : σ → ℕ) (lower : ∀ s a t, step s a t → measure t < measure s)
    (h : Run step s tr t) : tr.length + measure t ≤ measure s := by
  induction h with
  | nil => simp
  | @snoc tr t u a _ hstep ih =>
      have hlt := lower t a u hstep
      rw [List.length_append, List.length_singleton]
      omega

end Run

end Machine
