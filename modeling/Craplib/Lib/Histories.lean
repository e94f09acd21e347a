import Mathlib.Data.List.Count
import Craplib.Lib.Runs

/-!
# What happened to one object in a run

The steps of a system produce events, each about one object: `event s a` is what the
action `a` does when it is taken in `s`.  The *history* of an object in a run is the list
of the events about it, in order.

`Closes last ends es` is what a history must satisfy for `last` to be the end of
something: no event that meets `ends` comes after it.  It is kept by appending an event
that does not meet `ends`, or before which `last` has not happened (`Closes.snoc`), so it
is proved by induction on the run; and it says that `last` happens at most once when
`last` itself must not come after `last` (`Closes.count_le_one`).
-/

namespace Machine

universe u v w x y z

variable {σ : Type u} {α : Type v} {ι : Type w} {ε : Type x}

section History

variable [DecidableEq ι] (event : σ → α → Option (ι × ε))

/-- The event about `i` that an action gives rise to. -/
def eventAbout (i : ι) (s : σ) (a : α) : Option ε :=
  (event s a).bind fun e => if e.1 = i then some e.2 else none

/-- The events of a trace that are about `i`. -/
def history (i : ι) (tr : List (σ × α)) : List ε :=
  tr.filterMap fun p => eventAbout event i p.1 p.2

@[simp] theorem history_nil (i : ι) : history event i ([] : List (σ × α)) = [] := rfl

theorem history_append (i : ι) (tr tr' : List (σ × α)) :
    history event i (tr ++ tr') = history event i tr ++ history event i tr' :=
  List.filterMap_append

theorem history_snoc (i : ι) (tr : List (σ × α)) (s : σ) (a : α) :
    history event i (tr ++ [(s, a)]) =
      history event i tr ++ (eventAbout event i s a).toList := by
  rw [history_append]
  unfold history
  cases h : eventAbout event i s a <;> simp [h]

theorem history_cons (i : ι) (tr : List (σ × α)) (s : σ) (a : α) :
    history event i ((s, a) :: tr) = (eventAbout event i s a).toList ++ history event i tr := by
  unfold history
  cases h : eventAbout event i s a <;> simp [h]

/-- The history of an object can be read off the abstract side of a trace when the events
are those of the abstract actions. -/
theorem history_project {τ : Type y} {β : Type z} (abs : σ → τ) (label : σ → α → Option β)
    (event : τ → β → Option (ι × ε)) (i : ι) (tr : List (σ × α)) :
    history event i (project abs label tr) =
      history (fun s a => (label s a).bind (event (abs s))) i tr := by
  unfold history project
  rw [List.filterMap_filterMap]
  congr 1
  funext p
  cases h : label p.1 p.2 <;> simp [eventAbout, h]

variable {event}

theorem eventAbout_eq_some {i : ι} {s : σ} {a : α} {e : ε} :
    eventAbout event i s a = some e ↔ event s a = some (i, e) := by
  unfold eventAbout
  rw [Option.bind_eq_some_iff]
  constructor
  · rintro ⟨⟨j, e'⟩, hevent, he⟩
    split at he
    · next hj =>
        rw [hevent, ← Option.some.inj he, ← hj]
    · cases he
  · intro h
    exact ⟨(i, e), h, if_pos rfl⟩

end History

/-- In `es` no event that meets `ends` comes after `last`. -/
def Closes (last : ε) (ends : ε → Prop) (es : List ε) : Prop :=
  ∀ before e after, es = before ++ e :: after → ends e → last ∉ before

namespace Closes

variable {last : ε} {ends : ε → Prop} {es : List ε}

theorem nil : Closes last ends [] := by
  intro before e after h
  simp at h

theorem snoc (h : Closes last ends es) {e : ε} (he : ends e → last ∉ es) :
    Closes last ends (es ++ [e]) := by
  intro before e' after hsplit hends
  induction after using List.reverseRecOn with
  | nil =>
      obtain ⟨rfl, hlast⟩ := List.append_inj' hsplit rfl
      rw [List.cons.injEq] at hlast
      rw [← hlast.1] at hends
      exact he hends
  | append_singleton after x _ =>
      have hsplit' : es ++ [e] = (before ++ e' :: after) ++ [x] := by
        rw [hsplit, List.append_assoc, List.cons_append]
      obtain ⟨hes, -⟩ := List.append_inj' hsplit' rfl
      exact h before e' after hes hends

/-- Appending what one step may give rise to. -/
theorem snoc_toList (h : Closes last ends es) {o : Option ε}
    (ho : ∀ e, o = some e → ends e → last ∉ es) : Closes last ends (es ++ o.toList) := by
  cases o with
  | none => simpa using h
  | some e => exact h.snoc (ho e rfl)

theorem after_last (h : Closes last ends es) {before after : List ε}
    (hsplit : es = before ++ last :: after) : ∀ e ∈ after, ¬ ends e := by
  intro e he hends
  obtain ⟨mid, post, rfl⟩ := List.append_of_mem he
  have hsplit' : es = (before ++ last :: mid) ++ e :: post := by
    rw [hsplit, List.append_assoc, List.cons_append]
  exact h _ e post hsplit' hends (by simp)

theorem count_le_one [BEq ε] [LawfulBEq ε] (h : Closes last ends es) (hlast : ends last) :
    es.count last ≤ 1 := by
  by_cases hmem : last ∈ es
  · obtain ⟨before, after, hsplit⟩ := List.append_of_mem hmem
    have hbefore : last ∉ before := h before last after hsplit hlast
    have hafter : last ∉ after := fun hin => h.after_last hsplit last hin hlast
    have hzero := List.count_eq_zero_of_not_mem hbefore
    have hzero' := List.count_eq_zero_of_not_mem hafter
    rw [hsplit, List.count_append, List.count_cons_self]
    omega
  · rw [List.count_eq_zero_of_not_mem hmem]
    exact Nat.zero_le _

end Closes

end Machine
