import Mathlib.Data.List.Sort
import Mathlib.Order.Basic
import Mathlib.Tactic.Common

/-!
# Insertion at the lower bound

`lowerBound before l` is the binary search of `std::lower_bound`: the first position whose
element is not `before` the value.  It finds it only in a list in which no element that is
`before` comes behind one that is not (`lowerBound_eq`), so only if the order of the list
and the keys of its elements still agree.

Inserting there keeps a sorted list sorted (`insertAt_lowerBound`): it is Mathlib's
`orderedInsert`, in front of the elements with the same key.
-/

namespace LowerBound

universe u v

variable {α : Type u}

/-- The loop of `std::lower_bound` over `[first, first + len)`.  Every turn shortens the
range, so `len` turns are enough. -/
def search (before : α → Bool) (l : List α) : (turns first len : ℕ) → ℕ
  | 0, first, _ => first
  | turns + 1, first, len =>
      if len = 0 then first
      else
        let half := len / 2
        let middle := first + half
        match l[middle]? with
        | some x =>
            if before x then search before l turns (middle + 1) (len - half - 1)
            else search before l turns first half
        | none => first

/-- `std::lower_bound(l.begin(), l.end(), value, comp)`, with `before x` for
`comp(x, value)`. -/
def lowerBound (before : α → Bool) (l : List α) : ℕ := search before l l.length 0 l.length

/-- `l.insert(l.begin() + n, x)` -/
def insertAt (l : List α) (n : ℕ) (x : α) : List α := l.take n ++ x :: l.drop n

variable {before : α → Bool} {l : List α}

/-- The search stays around the border between what is before and what is not. -/
theorem search_eq {border : ℕ} (hborder : ∀ i x, l[i]? = some x → (before x = true ↔ i < border))
    {turns first len : ℕ} (hturns : len ≤ turns) (hlow : first ≤ border)
    (hhigh : border ≤ first + len) (hlen : first + len ≤ l.length) :
    search before l turns first len = border := by
  induction turns generalizing first len with
  | zero =>
      rw [search]
      omega
  | succ turns ih =>
      rw [search]
      split_ifs with hzero
      · omega
      · have hmiddle : first + len / 2 < l.length := by omega
        simp only [List.getElem?_eq_getElem hmiddle]
        have hx := hborder _ _ (List.getElem?_eq_getElem hmiddle)
        split_ifs with hbefore
        · have hlt := hx.mp hbefore
          exact ih (by omega) (by omega) (by omega) (by omega)
        · have hge : ¬ first + len / 2 < border := fun hlt => hbefore (hx.mpr hlt)
          exact ih (by omega) (by omega) (by omega) (by omega)

theorem before_iff_lt_takeWhile (h : l.Pairwise fun a b => before b = true → before a = true)
    (i : ℕ) (x : α) (hx : l[i]? = some x) :
    before x = true ↔ i < (l.takeWhile before).length := by
  induction l generalizing i with
  | nil => simp at hx
  | cons a rest ih =>
      obtain ⟨hhead, hrest⟩ := List.pairwise_cons.mp h
      by_cases ha : before a = true
      · rw [List.takeWhile_cons_of_pos ha, List.length_cons]
        cases i with
        | zero =>
            rw [List.getElem?_cons_zero] at hx
            rw [← Option.some.inj hx]
            exact ⟨fun _ => Nat.succ_pos _, fun _ => ha⟩
        | succ i =>
            rw [List.getElem?_cons_succ] at hx
            rw [ih hrest i hx, Nat.succ_lt_succ_iff]
      · rw [List.takeWhile_cons_of_neg ha, List.length_nil]
        constructor
        · intro hbefore
          cases i with
          | zero =>
              rw [List.getElem?_cons_zero] at hx
              rw [Option.some.inj hx] at ha
              exact absurd hbefore ha
          | succ i =>
              rw [List.getElem?_cons_succ] at hx
              exact absurd (hhead x (List.mem_of_getElem? hx) hbefore) ha
        · intro hlt
          exact absurd hlt (Nat.not_lt_zero i)

/-- In a list that is partitioned the search finds the border. -/
theorem lowerBound_eq (h : l.Pairwise fun a b => before b = true → before a = true) :
    lowerBound before l = (l.takeWhile before).length :=
  search_eq (before_iff_lt_takeWhile h) (Nat.le_refl _) (Nat.zero_le _)
    (by rw [Nat.zero_add]; exact (List.takeWhile_sublist before).length_le) (by omega)

/-- In a list sorted by a key, insertion at the lower bound of a key is ordered
insertion. -/
theorem insertAt_lowerBound {T : Type v} [LinearOrder T] (key : α → T) {l : List α} (x : α)
    (h : l.Pairwise fun a b => key a ≤ key b) :
    insertAt l (lowerBound (fun a => key a < key x) l) x =
      l.orderedInsert (fun a b => key a ≤ key b) x := by
  have hpart : l.Pairwise fun a b =>
      decide (key b < key x) = true → decide (key a < key x) = true := by
    refine h.imp fun hab hb => ?_
    rw [decide_eq_true_iff] at hb ⊢
    exact lt_of_le_of_lt hab hb
  have hwhile : (fun b => decide ¬ key x ≤ key b) = fun b => decide (key b < key x) := by
    funext b
    exact decide_eq_decide.mpr not_le
  have hsplit := List.takeWhile_append_dropWhile (p := fun b => decide (key b < key x)) (l := l)
  rw [lowerBound_eq hpart, insertAt, List.orderedInsert_eq_take_drop, hwhile]
  congr 1
  · exact (congrArg (List.take _) hsplit).symm.trans List.take_left
  · congr 1
    exact (congrArg (List.drop _) hsplit).symm.trans List.drop_left

end LowerBound
