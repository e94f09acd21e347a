import Mathlib.Order.Defs.Unbundled
import Mathlib.Data.List.Basic
import Mathlib.Tactic.Common
import Craplib.Lib.Weights

/-!
# Maps kept as sorted lists

`SortedMap r V` is a finite map from keys to `V` whose entries are held in the
order `r` of their keys, each key once; the order is part of the type, so a map
whose entries are out of order cannot be built.  Iterating over the map is going
through `entries`.

`insertNew` is the insertion that keeps the value a key already has.  Entries that
come in key order are appended (`entries_insertNew_of_greatest`), so inserting the
entries of a sorted list into the empty map gives the list back
(`entries_insertAll`).  An insertion adds at most the weight of its entry
(`weight_insertNew_le`).
-/

universe u v

/-- A finite map as the list of its entries, in the order of their keys. -/
@[ext] structure SortedMap {K : Type u} (r : K → K → Prop) (V : Type v) where
  entries : List (K × V)
  sorted : entries.Pairwise fun a b => r a.1 b.1

namespace SortedMap

variable {K : Type u} {V : Type v} {r : K → K → Prop}

instance [DecidableEq K] [DecidableEq V] : DecidableEq (SortedMap r V) := fun m m' =>
  decidable_of_iff (m.entries = m'.entries) SortedMap.ext_iff.symm

/-- The map without entries. -/
def empty : SortedMap r V := ⟨[], List.Pairwise.nil⟩

instance : Inhabited (SortedMap r V) := ⟨empty⟩

@[simp] theorem entries_empty : (empty : SortedMap r V).entries = [] := rfl

variable [DecidableRel r]

/-- Insert an entry at its place, unless its key is there. -/
def insertEntry (k : K) (v : V) : List (K × V) → List (K × V)
  | [] => [(k, v)]
  | e :: rest =>
    if r k e.1 then (k, v) :: e :: rest
    else if r e.1 k then e :: insertEntry k v rest
    else e :: rest

theorem mem_insertEntry {k : K} {v : V} {es : List (K × V)} {x : K × V}
    (h : x ∈ insertEntry (r := r) k v es) : x = (k, v) ∨ x ∈ es := by
  induction es with
  | nil => exact Or.inl (by simpa [insertEntry] using h)
  | cons e rest ih =>
      unfold insertEntry at h
      split at h
      · exact (List.mem_cons.mp h).imp_right id
      · split at h
        · rcases List.mem_cons.mp h with rfl | h
          · exact Or.inr (by simp)
          · exact (ih h).imp_right (List.mem_cons_of_mem _)
        · exact Or.inr h

theorem insertEntry_sorted [IsTrans K r] {k : K} {v : V} {es : List (K × V)}
    (h : es.Pairwise fun a b => r a.1 b.1) :
    (insertEntry (r := r) k v es).Pairwise fun a b => r a.1 b.1 := by
  induction es with
  | nil => simp [insertEntry]
  | cons e rest ih =>
      obtain ⟨hhead, htail⟩ := List.pairwise_cons.mp h
      unfold insertEntry
      split
      · next hlt =>
          refine List.pairwise_cons.mpr ⟨fun x hx => ?_, h⟩
          rcases List.mem_cons.mp hx with rfl | hx
          · exact hlt
          · exact IsTrans.trans _ _ _ hlt (hhead x hx)
      · split
        · next hgt =>
            refine List.pairwise_cons.mpr ⟨fun x hx => ?_, ih htail⟩
            rcases mem_insertEntry hx with rfl | hx
            · exact hgt
            · exact hhead x hx
        · exact h

variable [IsTrans K r]

/-- `insert`, which keeps the value a key already has. -/
def insertNew (m : SortedMap r V) (k : K) (v : V) : SortedMap r V :=
  ⟨insertEntry (r := r) k v m.entries, insertEntry_sorted m.sorted⟩

/-- Insert entries one after the other. -/
def insertAll (m : SortedMap r V) (es : List (K × V)) : SortedMap r V :=
  es.foldl (fun m e => m.insertNew e.1 e.2) m

@[simp] theorem insertAll_nil (m : SortedMap r V) : m.insertAll [] = m := rfl

@[simp] theorem insertAll_cons (m : SortedMap r V) (e : K × V) (es : List (K × V)) :
    m.insertAll (e :: es) = (m.insertNew e.1 e.2).insertAll es := rfl

theorem mem_insertAll {m : SortedMap r V} {es : List (K × V)} {x : K × V}
    (h : x ∈ (m.insertAll es).entries) : x ∈ m.entries ∨ x ∈ es := by
  induction es generalizing m with
  | nil => exact Or.inl h
  | cons e es ih =>
      rcases ih h with h | h
      · rcases mem_insertEntry h with rfl | h
        · exact Or.inr (by simp)
        · exact Or.inl h
      · exact Or.inr (List.mem_cons_of_mem _ h)

/-- A new greatest key goes to the end. -/
theorem entries_insertNew_of_greatest [Std.Asymm r] {m : SortedMap r V} {k : K} {v : V}
    (h : ∀ e ∈ m.entries, r e.1 k) : (m.insertNew k v).entries = m.entries ++ [(k, v)] := by
  have hlist : ∀ es : List (K × V), (∀ e ∈ es, r e.1 k) →
      insertEntry (r := r) k v es = es ++ [(k, v)] := by
    intro es hes
    induction es with
    | nil => rfl
    | cons e rest ih =>
        have he := hes e (by simp)
        rw [insertEntry, if_neg (Std.Asymm.asymm _ _ he), if_pos he,
          ih fun x hx => hes x (List.mem_cons_of_mem _ hx)]
        rfl
  exact hlist m.entries h

/-- Entries that come in key order, after those that are there, are appended. -/
theorem entries_insertAll [Std.Asymm r] {m : SortedMap r V} {es : List (K × V)}
    (h : (m.entries ++ es).Pairwise fun a b => r a.1 b.1) :
    (m.insertAll es).entries = m.entries ++ es := by
  induction es generalizing m with
  | nil => simp
  | cons e rest ih =>
      have hgreatest : ∀ x ∈ m.entries, r x.1 e.1 := fun x hx =>
        (List.pairwise_append.mp h).2.2 x hx e (by simp)
      have hentries := entries_insertNew_of_greatest (v := e.2) hgreatest
      rw [insertAll_cons, ih, hentries, List.append_assoc]
      · rfl
      · rw [hentries, List.append_assoc]
        exact h

/-! ## What an insertion adds -/

/-- The map has the key. -/
def Has (m : SortedMap r V) (k : K) : Prop := ∃ v, (k, v) ∈ m.entries

/-- A key that is there keeps its value. -/
theorem insertNew_of_has [Std.Asymm r] {m : SortedMap r V} {k : K} (v : V) (h : m.Has k) :
    m.insertNew k v = m := by
  have hlist : ∀ es : List (K × V), es.Pairwise (fun a b => r a.1 b.1) → (∃ w, (k, w) ∈ es) →
      insertEntry (r := r) k v es = es := by
    intro es hes
    induction es with
    | nil => simp
    | cons e rest ih =>
        obtain ⟨hhead, htail⟩ := List.pairwise_cons.mp hes
        rintro ⟨w, hw⟩
        unfold insertEntry
        rcases List.mem_cons.mp hw with rfl | hw
        · have hirrefl : ¬ r k k := fun hr => Std.Asymm.asymm _ _ hr hr
          rw [if_neg hirrefl, if_neg hirrefl]
        · have hlt : r e.1 k := hhead _ hw
          rw [if_neg (Std.Asymm.asymm _ _ hlt), if_pos hlt, ih htail ⟨w, hw⟩]
  exact SortedMap.ext (hlist m.entries m.sorted h)

/-- A key that is not there gets its value. -/
theorem mem_insertNew [Std.Trichotomous r] {m : SortedMap r V} {k : K} (v : V) (h : ¬ m.Has k) :
    (k, v) ∈ (m.insertNew k v).entries := by
  have hlist : ∀ es : List (K × V), (¬ ∃ w, (k, w) ∈ es) →
      (k, v) ∈ insertEntry (r := r) k v es := by
    intro es
    induction es with
    | nil => simp [insertEntry]
    | cons e rest ih =>
        intro hnot
        unfold insertEntry
        by_cases hlt : r k e.1
        · rw [if_pos hlt]
          simp
        · rw [if_neg hlt]
          by_cases hgt : r e.1 k
          · rw [if_pos hgt]
            refine List.mem_cons_of_mem _ (ih ?_)
            rintro ⟨w, hw⟩
            exact hnot ⟨w, List.mem_cons_of_mem _ hw⟩
          · obtain rfl : k = e.1 := Std.Trichotomous.trichotomous _ _ hlt hgt
            exact absurd ⟨e.2, by simp⟩ hnot
  exact hlist m.entries h

/-- Insert an entry, if there is one. -/
def add (m : SortedMap r V) (o : Option (K × V)) : SortedMap r V :=
  o.elim m fun e => m.insertNew e.1 e.2

/-- The entry, if there is one, would change nothing. -/
def Idle (m : SortedMap r V) (o : Option (K × V)) : Prop := ∀ e, o = some e → m.Has e.1

theorem add_of_idle [Std.Asymm r] {m : SortedMap r V} {o : Option (K × V)} (h : m.Idle o) :
    m.add o = m := by
  cases o with
  | none => rfl
  | some e => exact insertNew_of_has e.2 (h e rfl)

/-- **What an insertion adds**: two entries do the same to a map exactly when they are the
same, or the map has both keys. -/
theorem add_eq_add_iff [Std.Asymm r] [Std.Trichotomous r] {m : SortedMap r V}
    {o o' : Option (K × V)} : m.add o = m.add o' ↔ o = o' ∨ (m.Idle o ∧ m.Idle o') := by
  -- an entry that is new to the map is in the result, so the other one brings it too
  have hnew : ∀ {o o' : Option (K × V)}, m.add o = m.add o' → ¬ m.Idle o → o = o' := by
    intro o o' heq hidle
    unfold Idle at hidle
    push Not at hidle
    obtain ⟨e, rfl, he⟩ := hidle
    have hmem : e ∈ (m.add o').entries := heq ▸ mem_insertNew e.2 he
    cases o' with
    | none => exact absurd ⟨e.2, hmem⟩ he
    | some e' =>
        rcases mem_insertEntry hmem with rfl | hmem
        · rfl
        · exact absurd ⟨e.2, hmem⟩ he
  constructor
  · intro heq
    by_cases h : m.Idle o
    · by_cases h' : m.Idle o'
      · exact Or.inr ⟨h, h'⟩
      · exact Or.inl (hnew heq.symm h').symm
    · exact Or.inl (hnew heq h)
  · rintro (rfl | ⟨h, h'⟩)
    · rfl
    · rw [add_of_idle h, add_of_idle h']

/-! ## Weight -/

omit [IsTrans K r] in
theorem total_insertEntry_le (f : K × V → ℕ) (k : K) (v : V) (es : List (K × V)) :
    Weights.total f (insertEntry (r := r) k v es) ≤ Weights.total f es + f (k, v) := by
  induction es with
  | nil => simp [insertEntry, Weights.total]
  | cons e rest ih =>
      unfold insertEntry
      split_ifs
      · rw [Weights.total_cons]
        omega
      · rw [Weights.total_cons, Weights.total_cons]
        omega
      · omega

/-- What the entries of a map weigh together. -/
def weight (f : K × V → ℕ) (m : SortedMap r V) : ℕ := Weights.total f m.entries

/-- An insertion adds the weight of its entry, or nothing. -/
theorem weight_insertNew_le (f : K × V → ℕ) (m : SortedMap r V) (k : K) (v : V) :
    (m.insertNew k v).weight f ≤ m.weight f + f (k, v) :=
  total_insertEntry_le f k v m.entries

end SortedMap
