import Mathlib.Algebra.BigOperators.Group.List.Basic
import Mathlib.Algebra.Order.BigOperators.Group.List
import Mathlib.Algebra.Order.Ring.Nat
import Mathlib.Tactic.Common

/-!
# Weights over a list of threads

A shared counter is accounted for by what each thread contributes to it at the point
where it is.  `total f l` is the sum of the contributions; a thread that moves changes it
by what it contributed before and contributes now (`total_set`), which is how an invariant
"the counter is the sum of the contributions" is kept.
-/

namespace Weights

universe u

variable {α : Type u} {f : α → ℕ} {l : List α} {i : ℕ} {a b : α}

/-- What the elements of a list contribute together. -/
def total (f : α → ℕ) (l : List α) : ℕ := (l.map f).sum

@[simp] theorem total_nil (f : α → ℕ) : total f [] = 0 := rfl

@[simp] theorem total_cons (f : α → ℕ) (a : α) (l : List α) :
    total f (a :: l) = f a + total f l := by
  simp [total]

@[simp] theorem total_replicate (f : α → ℕ) (n : ℕ) (a : α) :
    total f (List.replicate n a) = n * f a := by
  simp [total]

@[simp] theorem total_append (f : α → ℕ) (l l' : List α) :
    total f (l ++ l') = total f l + total f l' := by
  simp [total]

/-- One element goes. -/
theorem total_eraseIdx (h : l[i]? = some a) : total f (l.eraseIdx i) + f a = total f l := by
  induction l generalizing i with
  | nil => simp at h
  | cons c l ih =>
      cases i with
      | zero =>
          obtain rfl : c = a := by simpa using h
          rw [List.eraseIdx_cons_zero, total_cons, Nat.add_comm]
      | succ i =>
          have hrest := ih (i := i) (by simpa using h)
          rw [List.eraseIdx_cons_succ, total_cons, total_cons]
          omega

/-- One element moves from `a` to `b`. -/
theorem total_set (h : l[i]? = some a) (b : α) :
    total f (l.set i b) + f a = total f l + f b := by
  induction l generalizing i with
  | nil => simp at h
  | cons c l ih =>
      cases i with
      | zero =>
          obtain rfl : c = a := by simpa using h
          rw [List.set_cons_zero, total_cons, total_cons]
          omega
      | succ i =>
          have hrest := ih (i := i) (by simpa using h)
          rw [List.set_cons_succ, total_cons, total_cons]
          omega

theorem le_total (h : a ∈ l) : f a ≤ total f l :=
  List.single_le_sum (fun _ _ => Nat.zero_le _) _ (List.mem_map_of_mem h)

theorem total_eq_zero : total f l = 0 ↔ ∀ a ∈ l, f a = 0 := by
  rw [total, List.sum_eq_zero_iff]
  simp

theorem exists_pos (h : 0 < total f l) : ∃ a ∈ l, 0 < f a := by
  by_contra hnone
  push Not at hnone
  exact absurd (total_eq_zero.mpr fun a ha => Nat.le_zero.mp (hnone a ha)) (Nat.ne_of_gt h)

end Weights
