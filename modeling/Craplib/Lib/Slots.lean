import Mathlib.Data.List.Basic
import Mathlib.Tactic.Common

/-!
# Tables of slots

The objects of a program that come and go are kept in a *table*: a list of
slots, the index of a slot being the object's name.  A new object takes a new
slot at the end, and the slot of an object that is gone stays empty, so a name
is never used for two objects.

`held p tbl` counts the objects of a table that satisfy `p`.  The three updates
(`insert`, `put`, `remove`) change that count by what they put in and what they
take out, which is all that a reference count has to agree with.
-/

namespace Slots

universe u

/-- A table of named slots; `none` is the slot of an object that is gone. -/
abbrev Table (α : Type u) := List (Option α)

variable {α : Type u}

/-- The object in slot `i`. -/
def lookup (tbl : Table α) (i : ℕ) : Option α := (tbl[i]?).join

/-- A new object, in a new slot at the end. -/
def insert (tbl : Table α) (a : α) : Table α := tbl ++ [some a]

/-- The object in slot `i` becomes `a`. -/
def put (tbl : Table α) (i : ℕ) (a : α) : Table α := tbl.set i (some a)

/-- The object in slot `i` is gone. -/
def remove (tbl : Table α) (i : ℕ) : Table α := tbl.set i none

/-- How many objects of the table satisfy `p`. -/
def held (p : α → Bool) (tbl : Table α) : ℕ := tbl.countP (·.any p)

theorem lookup_eq_some {tbl : Table α} {i : ℕ} {a : α} :
    lookup tbl i = some a ↔ tbl[i]? = some (some a) := by
  simp [lookup, Option.join_eq_some_iff]

theorem lookup_lt {tbl : Table α} {i : ℕ} {a : α} (h : lookup tbl i = some a) :
    i < tbl.length := by
  obtain ⟨hi, -⟩ := List.getElem?_eq_some_iff.mp (lookup_eq_some.mp h)
  exact hi

theorem lookup_getElem {tbl : Table α} {i : ℕ} {a : α} (h : lookup tbl i = some a)
    (hi : i < tbl.length) : tbl[i] = some a := by
  obtain ⟨_, hget⟩ := List.getElem?_eq_some_iff.mp (lookup_eq_some.mp h)
  exact hget

theorem mem_of_lookup {tbl : Table α} {i : ℕ} {a : α} (h : lookup tbl i = some a) :
    some a ∈ tbl :=
  List.mem_of_getElem? (lookup_eq_some.mp h)

/-! ## What an update does to a lookup -/

theorem lookup_put_self {tbl : Table α} {i : ℕ} {a : α} (b : α)
    (h : lookup tbl i = some a) : lookup (put tbl i b) i = some b := by
  simp [lookup, put, List.getElem?_set_self (lookup_lt h)]

theorem lookup_put_ne {tbl : Table α} {i j : ℕ} (b : α) (h : j ≠ i) :
    lookup (put tbl i b) j = lookup tbl j := by
  simp [lookup, put, List.getElem?_set_ne (Ne.symm h)]

theorem lookup_remove_ne {tbl : Table α} {i j : ℕ} (h : j ≠ i) :
    lookup (remove tbl i) j = lookup tbl j := by
  simp [lookup, remove, List.getElem?_set_ne (Ne.symm h)]

theorem lookup_remove_self (tbl : Table α) (i : ℕ) : lookup (remove tbl i) i = none := by
  by_cases h : i < tbl.length
  · simp [lookup, remove, List.getElem?_set_self h]
  · have hlen : (remove tbl i).length ≤ i := by simpa [remove] using Nat.le_of_not_lt h
    rw [lookup, List.getElem?_eq_none hlen, Option.join_none]

theorem lookup_insert_self (tbl : Table α) (a : α) :
    lookup (insert tbl a) tbl.length = some a := by
  simp [lookup, insert]

theorem lookup_insert_of_lt {tbl : Table α} {i : ℕ} (a : α) (h : i < tbl.length) :
    lookup (insert tbl a) i = lookup tbl i := by
  rw [lookup, lookup, insert, List.getElem?_append_left h]

/-! ## What an update does to a count -/

theorem held_insert (p : α → Bool) (tbl : Table α) (a : α) :
    held p (insert tbl a) = held p tbl + if p a then 1 else 0 := by
  simp [held, insert, List.countP_append, List.countP_cons]

theorem held_put (p : α → Bool) {tbl : Table α} {i : ℕ} {a : α} (b : α)
    (h : lookup tbl i = some a) :
    held p (put tbl i b) + (if p a then 1 else 0) = held p tbl + if p b then 1 else 0 := by
  have hpos : tbl.countP (·.any p) ≥ if p a then 1 else 0 := by
    split
    · exact List.countP_pos_iff.mpr ⟨some a, mem_of_lookup h, by simpa⟩
    · exact Nat.zero_le _
  simp only [held, put, List.countP_set (lookup_lt h), lookup_getElem h (lookup_lt h),
    Option.any_some]
  omega

theorem held_remove (p : α → Bool) {tbl : Table α} {i : ℕ} {a : α}
    (h : lookup tbl i = some a) :
    held p (remove tbl i) + (if p a then 1 else 0) = held p tbl := by
  have hpos : tbl.countP (·.any p) ≥ if p a then 1 else 0 := by
    split
    · exact List.countP_pos_iff.mpr ⟨some a, mem_of_lookup h, by simpa⟩
    · exact Nat.zero_le _
  simp only [held, remove, List.countP_set (lookup_lt h), lookup_getElem h (lookup_lt h),
    Option.any_some, Option.any_none]
  simp only [Bool.false_eq_true, if_false]
  omega

theorem held_pos {p : α → Bool} {tbl : Table α} {i : ℕ} {a : α}
    (h : lookup tbl i = some a) (hp : p a = true) : 0 < held p tbl :=
  List.countP_pos_iff.mpr ⟨some a, mem_of_lookup h, by simpa⟩

theorem held_eq_zero {p : α → Bool} {tbl : Table α} :
    held p tbl = 0 ↔ ∀ a, some a ∈ tbl → p a = false := by
  rw [held, List.countP_eq_zero]
  constructor
  · intro h a ha
    simpa using h (some a) ha
  · rintro h (_ | a) ha
    · simp
    · simpa using h a ha

/-! ## What an update does to a property of every object -/

theorem forall_insert {P : α → Prop} {tbl : Table α} {a : α} (ha : P a)
    (h : ∀ x, some x ∈ tbl → P x) : ∀ x, some x ∈ insert tbl a → P x := by
  intro x hx
  rcases List.mem_append.mp hx with hx | hx
  · exact h x hx
  · obtain rfl : x = a := by simpa using hx
    exact ha

theorem forall_put {P : α → Prop} {tbl : Table α} {i : ℕ} {a : α} (ha : P a)
    (h : ∀ x, some x ∈ tbl → P x) : ∀ x, some x ∈ put tbl i a → P x := by
  intro x hx
  rcases List.mem_or_eq_of_mem_set hx with hx | hx
  · exact h x hx
  · obtain rfl : x = a := by simpa using hx
    exact ha

theorem forall_remove {P : α → Prop} {tbl : Table α} {i : ℕ}
    (h : ∀ x, some x ∈ tbl → P x) : ∀ x, some x ∈ remove tbl i → P x := by
  intro x hx
  rcases List.mem_or_eq_of_mem_set hx with hx | hx
  · exact h x hx
  · simp at hx

end Slots
