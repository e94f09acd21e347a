import Mathlib.Data.List.Nodup
import Craplib.Lib.Runs

/-!
# A mailbox whose letters may be withdrawn

Letters are put in at the end and taken out at the front, and some may be withdrawn before
they are taken: those that meet a condition, or those behind the first few.  `taken_append`
says what becomes of the letters of a run, when no letter is put in twice: in the order in
which they were put in, and without those withdrawn, they are the ones that were taken and
then the ones that are still there.
-/

namespace Machine

universe u v w

namespace Mailbox

variable {α : Type u}

/-- What happens to a mailbox. -/
inductive Action (α : Type u)
  | push (letter : α)
  | take (letter : α)
  /-- All letters for which this is true are withdrawn. -/
  | withdraw (gone : α → Bool)
  /-- The letters behind this many are withdrawn. -/
  | cut (kept : ℕ)

/-- The steps of a mailbox. -/
inductive Step : List α → Action α → List α → Prop
  | push (box : List α) (letter : α) : Step box (.push letter) (box ++ [letter])
  | take (letter : α) (rest : List α) : Step (letter :: rest) (.take letter) rest
  | withdraw (box : List α) (gone : α → Bool) :
      Step box (.withdraw gone) (box.filter fun letter => !gone letter)
  | cut (box : List α) (kept : ℕ) : Step box (.cut kept) (box.take kept)

/-- The letter that an action puts in. -/
def Action.pushed : Action α → Option α
  | .push letter => some letter
  | .take _ | .withdraw _ | .cut _ => none

/-- The letter that an action takes out. -/
def Action.taken : Action α → Option α
  | .take letter => some letter
  | .push _ | .withdraw _ | .cut _ => none

/-- The letters that a step withdraws. -/
def withdrawnIn (box : List α) : Action α → List α
  | .withdraw gone => box.filter gone
  | .cut kept => box.drop kept
  | .push _ | .take _ => []

def pushed (tr : List (List α × Action α)) : List α := tr.filterMap fun p => p.2.pushed

def taken (tr : List (List α × Action α)) : List α := tr.filterMap fun p => p.2.taken

def withdrawn (tr : List (List α × Action α)) : List α := tr.flatMap fun p => withdrawnIn p.1 p.2

theorem pushed_snoc (tr : List (List α × Action α)) (box : List α) (act : Action α) :
    pushed (tr ++ [(box, act)]) = pushed tr ++ act.pushed.toList := by
  unfold pushed
  rw [List.filterMap_append]
  cases h : act.pushed <;> simp [h]

theorem taken_snoc (tr : List (List α × Action α)) (box : List α) (act : Action α) :
    taken (tr ++ [(box, act)]) = taken tr ++ act.taken.toList := by
  unfold taken
  rw [List.filterMap_append]
  cases h : act.taken <;> simp [h]

theorem withdrawn_snoc (tr : List (List α × Action α)) (box : List α) (act : Action α) :
    withdrawn (tr ++ [(box, act)]) = withdrawn tr ++ withdrawnIn box act := by
  simp [withdrawn]

section Project

variable {σ : Type v} {β : Type w} (abs : σ → List α) (label : σ → β → Option (Action α))
  (tr : List (σ × β))

theorem pushed_project :
    pushed (project abs label tr) = tr.filterMap fun p => (label p.1 p.2).bind Action.pushed := by
  unfold pushed project
  rw [List.filterMap_filterMap]
  congr 1
  funext p
  cases label p.1 p.2 <;> rfl

theorem taken_project :
    taken (project abs label tr) = tr.filterMap fun p => (label p.1 p.2).bind Action.taken := by
  unfold taken project
  rw [List.filterMap_filterMap]
  congr 1
  funext p
  cases label p.1 p.2 <;> rfl

theorem withdrawn_project :
    withdrawn (project abs label tr) =
      tr.flatMap fun p => (label p.1 p.2).elim [] (withdrawnIn (abs p.1)) := by
  unfold withdrawn project
  induction tr with
  | nil => rfl
  | cons p rest ih =>
      rw [List.filterMap_cons, List.flatMap_cons, ← ih]
      cases label p.1 p.2 <;> rfl

end Project

variable {tr : List (List α × Action α)} {box : List α}

theorem mem_pushed (hrun : Run Step [] tr box) :
    (∀ letter ∈ box, letter ∈ pushed tr) ∧ ∀ letter ∈ withdrawn tr, letter ∈ pushed tr := by
  induction hrun with
  | nil => exact ⟨fun _ => id, fun _ => id⟩
  | @snoc tr box _ act _ hstep ih =>
      obtain ⟨hbox, hwithdrawn⟩ := ih
      rw [pushed_snoc, withdrawn_snoc]
      cases hstep with
      | push _ letter =>
          simp only [Action.pushed, withdrawnIn, List.append_nil, Option.toList_some,
            List.mem_append]
          exact ⟨fun x hx => hx.imp_left (hbox x), fun x hx => .inl (hwithdrawn x hx)⟩
      | take letter =>
          simp only [Action.pushed, withdrawnIn, List.append_nil, Option.toList_none]
          exact ⟨fun x hx => hbox x (List.mem_cons_of_mem _ hx), hwithdrawn⟩
      | withdraw _ gone =>
          simp only [Action.pushed, withdrawnIn, List.append_nil, Option.toList_none,
            List.mem_append]
          refine ⟨fun x hx => hbox x (List.mem_filter.mp hx).1, fun x hx => ?_⟩
          exact hx.elim (hwithdrawn x) fun hgone => hbox x (List.mem_filter.mp hgone).1
      | cut _ kept =>
          simp only [Action.pushed, withdrawnIn, List.append_nil, Option.toList_none,
            List.mem_append]
          refine ⟨fun x hx => hbox x (List.mem_of_mem_take hx), fun x hx => ?_⟩
          exact hx.elim (hwithdrawn x) fun hgone => hbox x (List.mem_of_mem_drop hgone)

variable [DecidableEq α]

/-- Withdrawing what has not been taken leaves alone what has. -/
theorem filter_not_mem_filter {before box : List α} (hnodup : (before ++ box).Nodup)
    (gone : α → Bool) :
    (before ++ box).filter (· ∉ box.filter gone) = before ++ box.filter fun x => !gone x := by
  have hdisjoint := (List.nodup_append.mp hnodup).2.2
  rw [List.filter_append]
  congr 1
  · refine List.filter_eq_self.mpr fun x hx => ?_
    rw [decide_eq_true_iff]
    exact fun hgone => hdisjoint x hx x (List.mem_filter.mp hgone).1 rfl
  · refine List.filter_congr fun x hx => ?_
    cases hgone : gone x <;> simp [hx, hgone]

theorem filter_not_mem_drop {before box : List α} (hnodup : (before ++ box).Nodup) (kept : ℕ) :
    (before ++ box).filter (· ∉ box.drop kept) = before ++ box.take kept := by
  have hsplit : before ++ box = (before ++ box.take kept) ++ box.drop kept := by
    rw [List.append_assoc, List.take_append_drop]
  have hdisjoint : ∀ x ∈ before ++ box.take kept, ∀ y ∈ box.drop kept, x ≠ y := by
    rw [hsplit] at hnodup
    exact (List.nodup_append.mp hnodup).2.2
  have hfront : (before ++ box.take kept).filter (· ∉ box.drop kept) = before ++ box.take kept :=
    List.filter_eq_self.mpr fun x hx => by
      rw [decide_eq_true_iff]
      exact fun hgone => hdisjoint x hx x hgone rfl
  have hback : (box.drop kept).filter (· ∉ box.drop kept) = [] :=
    List.filter_eq_nil_iff.mpr fun x hx => by simpa using hx
  nth_rewrite 1 [hsplit]
  rw [List.filter_append, hfront, hback, List.append_nil]

/-- **What becomes of the letters.** -/
theorem taken_append (hrun : Run Step [] tr box) (hnodup : (pushed tr).Nodup) :
    taken tr ++ box = (pushed tr).filter (· ∉ withdrawn tr) := by
  induction hrun with
  | nil => rfl
  | @snoc tr box _ act hrun hstep ih =>
      obtain ⟨_, hwithdrawn⟩ := mem_pushed hrun
      rw [pushed_snoc] at hnodup
      have ih := ih (List.nodup_append.mp hnodup).1
      have hall : (taken tr ++ box).Nodup := by
        rw [ih]
        exact (List.nodup_append.mp hnodup).1.filter _
      rw [pushed_snoc, withdrawn_snoc, taken_snoc]
      cases hstep with
      | push _ letter =>
          have hfresh : letter ∉ withdrawn tr := fun hin =>
            (List.nodup_append.mp hnodup).2.2 letter (hwithdrawn letter hin) letter
              (by simp [Action.pushed]) rfl
          simp only [Action.pushed, Action.taken, withdrawnIn, Option.toList_some,
            Option.toList_none, List.append_nil, List.filter_append]
          rw [← List.append_assoc, ih, List.filter_singleton, decide_eq_true hfresh]
          rfl
      | take letter rest =>
          simpa [Action.pushed, Action.taken, withdrawnIn] using ih
      | withdraw _ gone =>
          simp only [Action.pushed, Action.taken, withdrawnIn, Option.toList_none,
            List.append_nil]
          rw [← filter_not_mem_filter hall gone, ih, List.filter_filter]
          refine List.filter_congr fun x _ => ?_
          simp [Bool.and_comm]
      | cut _ kept =>
          simp only [Action.pushed, Action.taken, withdrawnIn, Option.toList_none,
            List.append_nil]
          rw [← filter_not_mem_drop hall kept, ih, List.filter_filter]
          refine List.filter_congr fun x _ => ?_
          simp [Bool.and_comm]

end Mailbox

end Machine
