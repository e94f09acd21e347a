import Mathlib.Data.Int.Order.Basic
import Mathlib.Tactic.Common

/-!
# Comparisons that answer with an integer

A three-way comparison in C gives a number below, at or above zero; only its sign says
anything.  `outcome r` is the `Ordering` that the sign of `r` stands for.  Where the signs of
a comparison are those of a lawful `cmp : α → α → Ordering`, what is known of `cmp` is known
of the numbers: `eq_zero_iff`, `opposite` and `chain`.

`shortlex` is the order of lists that compares the lengths first, and the elements only where
the lengths agree.  It is as lawful as the order of the elements is.
-/

namespace Comparators

universe u

variable {α : Type u}

/-- The order that the sign of a number stands for. -/
def outcome (r : ℤ) : Ordering := compare r 0

variable {r s t : ℤ}

@[simp] theorem outcome_eq_lt : outcome r = .lt ↔ r < 0 := Int.compare_eq_lt

@[simp] theorem outcome_eq_gt : outcome r = .gt ↔ 0 < r := Int.compare_eq_gt

@[simp] theorem outcome_eq_eq : outcome r = .eq ↔ r = 0 := Std.compare_eq_iff_eq

theorem isLE_outcome : (outcome r).isLE ↔ r ≤ 0 := by
  rw [Ordering.isLE_iff_eq_lt_or_eq_eq, outcome_eq_lt, outcome_eq_eq]
  omega

/-- The difference of two sizes has the sign of their comparison. -/
theorem outcome_sub (a b : ℕ) : outcome ((a : ℤ) - b) = compare a b := by
  rcases Nat.lt_trichotomy a b with h | h | h
  · rw [Nat.compare_eq_lt.mpr h, outcome_eq_lt]
    omega
  · simp [outcome, h]
  · rw [Nat.compare_eq_gt.mpr h, outcome_eq_gt]
    omega

/-! ## What the signs of a lawful comparison satisfy -/

section Lawful

variable {cmp : α → α → Ordering} {a b c : α}

/-- Zero is for equal things. -/
theorem eq_zero_iff [Std.LawfulEqCmp cmp] (h : outcome r = cmp a b) : r = 0 ↔ a = b := by
  rw [← outcome_eq_eq, h, Std.LawfulEqCmp.compare_eq_iff_eq]

/-- Exchanged arguments give opposite signs. -/
theorem opposite [Std.OrientedCmp cmp] (hr : outcome r = cmp a b) (hs : outcome s = cmp b a) :
    (r < 0 ↔ 0 < s) ∧ (r = 0 ↔ s = 0) ∧ (0 < r ↔ s < 0) := by
  simp only [← outcome_eq_lt, ← outcome_eq_gt, ← outcome_eq_eq, hr, hs]
  exact ⟨Std.OrientedCmp.gt_iff_lt.symm, Std.OrientedCmp.eq_comm, Std.OrientedCmp.gt_iff_lt⟩

/-- Signs that are not positive chain, and one that is negative makes the chain so. -/
theorem chain [Std.TransCmp cmp] (hr : outcome r = cmp a b) (hs : outcome s = cmp b c)
    (ht : outcome t = cmp a c) (hab : r ≤ 0) (hbc : s ≤ 0) :
    t ≤ 0 ∧ (r < 0 ∨ s < 0 → t < 0) := by
  rw [← isLE_outcome, hr] at hab
  rw [← isLE_outcome, hs] at hbc
  refine ⟨?_, fun hlt => ?_⟩
  · rw [← isLE_outcome, ht]
    exact Std.TransCmp.isLE_trans hab hbc
  · rw [← outcome_eq_lt, ← outcome_eq_lt, hr, hs] at hlt
    rw [← outcome_eq_lt, ht]
    rcases hlt with hlt | hlt
    · exact Std.TransCmp.lt_of_lt_of_isLE hlt hbc
    · exact Std.TransCmp.lt_of_isLE_of_lt hab hlt

end Lawful

/-! ## Lengths first -/

/-- The shorter list is the smaller one, and lists of one length compare by their elements. -/
def shortlex [Ord α] : List α → List α → Ordering :=
  compareLex (compareOn List.length) compare

instance [Ord α] [Std.TransOrd α] : Std.TransCmp (@shortlex α _) :=
  inferInstanceAs (Std.TransCmp (compareLex _ _))

instance [Ord α] [Std.LawfulEqOrd α] : Std.LawfulEqCmp (@shortlex α _) where
  compare_self {x} := by simp [shortlex, compareLex, compareOn]
  eq_of_compare h := Std.LawfulEqOrd.eq_of_compare (compareLex_eq_eq.mp h).2

section Shortlex

variable [Ord α] {x y : List α}

theorem shortlex_of_length_eq (h : x.length = y.length) : shortlex x y = compare x y := by
  simp [shortlex, compareLex, compareOn, h]

theorem shortlex_of_length_ne (h : x.length ≠ y.length) :
    shortlex x y = compare x.length y.length := by
  have hne : compare x.length y.length ≠ .eq := fun heq => h (Std.LawfulEqOrd.eq_of_compare heq)
  unfold shortlex compareLex compareOn
  cases hcmp : compare x.length y.length with
  | eq => exact absurd hcmp hne
  | lt | gt => rfl

end Shortlex

end Comparators
