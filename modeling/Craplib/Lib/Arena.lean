import Mathlib.Data.List.AList
import Mathlib.Tactic.Common

/-!
# Objects at addresses that are used again

A pointer names an address, not an object: when the object is gone the allocator
may put a new one at the same place.  An *arena* keeps both: the object that lives
at an address now, and its *serial number*, the count of objects constructed before
it, which no other object ever gets.

That no two live objects share a serial number, and that none has a number still to
be given out, are fields of the structure, so an arena in which a number could mean
two objects cannot be built.
-/

universe u v

/-- The live objects of a program by address, each with its serial number. -/
structure Arena (Addr : Type u) [DecidableEq Addr] (β : Type v) where
  table : AList (fun _ : Addr => ℕ × β)
  /-- How many objects have been constructed. -/
  born : ℕ
  serial_lt : ∀ a o, table.lookup a = some o → o.1 < born
  serial_inj : ∀ a b o o', table.lookup a = some o → table.lookup b = some o' →
    o.1 = o'.1 → a = b

namespace Arena

variable {Addr : Type u} [DecidableEq Addr] {β : Type v}

/-- No object has been constructed. -/
def empty : Arena Addr β :=
  ⟨∅, 0, fun _ _ h => by simp at h, fun _ _ _ _ h => by simp at h⟩

/-- The object that lives at an address. -/
def object (A : Arena Addr β) (a : Addr) : Option (ℕ × β) := A.table.lookup a

/-- The serial number of the object that lives at an address. -/
def serial (A : Arena Addr β) (a : Addr) : Option ℕ := (A.object a).map Prod.fst

/-- The number of live objects. -/
def size (A : Arena Addr β) : ℕ := A.table.keys.length

/-- The number of live objects that satisfy `p`. -/
def count (A : Arena Addr β) (p : β → Bool) : ℕ := A.table.entries.countP fun e => p e.2.2

/-- Construct an object at a free address. -/
def construct (A : Arena Addr β) (a : Addr) (b : β) : Option (Arena Addr β) :=
  if A.object a = none then
    some {
      table := A.table.insert a (A.born, b)
      born := A.born + 1
      serial_lt := by
        intro c o hc
        by_cases hca : c = a
        · subst hca
          rw [AList.lookup_insert, Option.some.injEq] at hc
          subst hc
          exact Nat.lt_succ_self _
        · rw [AList.lookup_insert_ne hca] at hc
          exact Nat.lt_succ_of_lt (A.serial_lt c o hc)
      serial_inj := by
        intro c d o o' hc hd ho
        by_cases hca : c = a <;> by_cases hda : d = a
        · rw [hca, hda]
        · subst hca
          rw [AList.lookup_insert, Option.some.injEq] at hc
          rw [AList.lookup_insert_ne hda] at hd
          subst hc
          exact absurd ho (Nat.ne_of_gt (A.serial_lt d o' hd))
        · subst hda
          rw [AList.lookup_insert_ne hca] at hc
          rw [AList.lookup_insert, Option.some.injEq] at hd
          subst hd
          exact absurd ho (Nat.ne_of_lt (A.serial_lt c o hc))
        · rw [AList.lookup_insert_ne hca] at hc
          rw [AList.lookup_insert_ne hda] at hd
          exact A.serial_inj c d o o' hc hd ho }
  else none

/-- Destroy the object at an address. -/
def destroy (A : Arena Addr β) (a : Addr) : Arena Addr β where
  table := A.table.erase a
  born := A.born
  serial_lt := by
    intro c o hc
    have hca : c ≠ a := by
      rintro rfl
      simp at hc
    rw [AList.lookup_erase_ne hca] at hc
    exact A.serial_lt c o hc
  serial_inj := by
    intro c d o o' hc hd
    have hca : c ≠ a := by
      rintro rfl
      simp at hc
    have hda : d ≠ a := by
      rintro rfl
      simp at hd
    rw [AList.lookup_erase_ne hca] at hc
    rw [AList.lookup_erase_ne hda] at hd
    exact A.serial_inj c d o o' hc hd

variable {A A' : Arena Addr β} {a c : Addr} {b : β} {i : ℕ}

/-! ## What an update does to a lookup -/

theorem object_of_construct (h : A.construct a b = some A') (c : Addr) :
    A'.object c = if c = a then some (A.born, b) else A.object c := by
  unfold construct at h
  split at h
  · rw [Option.some.injEq] at h
    subst h
    by_cases hca : c = a
    · subst hca
      rw [if_pos rfl]
      exact AList.lookup_insert _
    · rw [if_neg hca]
      exact AList.lookup_insert_ne hca
  · cases h

theorem free_of_construct (h : A.construct a b = some A') : A.object a = none := by
  unfold construct at h
  split at h
  · assumption
  · cases h

theorem construct_isSome (b : β) (h : A.object a = none) : (A.construct a b).isSome := by
  unfold construct
  rw [if_pos h]
  rfl

theorem born_of_construct (h : A.construct a b = some A') : A'.born = A.born + 1 := by
  unfold construct at h
  split at h
  · rw [Option.some.injEq] at h
    rw [← h]
  · cases h

theorem size_of_construct (h : A.construct a b = some A') : A'.size = A.size + 1 := by
  have hfree := free_of_construct h
  unfold construct at h
  rw [if_pos hfree, Option.some.injEq] at h
  have hkey : a ∉ A.table.keys := by
    rw [← AList.mem_keys]
    exact AList.lookup_eq_none.mp hfree
  rw [← h, size, size, AList.keys_insert, List.length_cons, List.erase_of_not_mem hkey]

@[simp] theorem object_destroy (A : Arena Addr β) (a c : Addr) :
    (A.destroy a).object c = if c = a then none else A.object c := by
  by_cases hca : c = a
  · subst hca
    rw [if_pos rfl]
    exact AList.lookup_erase _ _
  · rw [if_neg hca]
    exact AList.lookup_erase_ne hca

@[simp] theorem born_destroy (A : Arena Addr β) (a : Addr) : (A.destroy a).born = A.born := rfl

theorem size_destroy (h : A.object a ≠ none) : (A.destroy a).size + 1 = A.size := by
  have hkey : a ∈ A.table.keys := by
    rw [← AList.mem_keys, ← AList.lookup_isSome]
    exact Option.isSome_iff_ne_none.mpr h
  have hpos : 0 < A.table.keys.length := List.length_pos_of_mem hkey
  rw [size, size, destroy, AList.keys_erase, List.length_erase_of_mem hkey]
  omega

/-! ## What an update does to a count -/

theorem count_of_construct (h : A.construct a b = some A') (p : β → Bool) :
    A'.count p = A.count p + if p b then 1 else 0 := by
  have hfree := free_of_construct h
  unfold construct at h
  rw [if_pos hfree, Option.some.injEq] at h
  have hkey : a ∉ A.table := AList.lookup_eq_none.mp hfree
  rw [← h, count, count]
  dsimp only
  rw [AList.entries_insert_of_notMem hkey, List.countP_cons]

theorem count_destroy (h : A.object a = some (i, b)) (p : β → Bool) :
    (A.destroy a).count p + (if p b then 1 else 0) = A.count p := by
  have hkey : a ∈ A.table.entries.keys := by
    rw [← List.dlookup_isSome]
    exact Option.isSome_iff_exists.mpr ⟨_, h⟩
  obtain ⟨o, before, after, hbefore, hentries, hrest⟩ := List.exists_of_kerase hkey
  have hlookup : A.table.entries.dlookup a = some o := by
    rw [hentries, List.dlookup_append, List.dlookup_eq_none.mpr hbefore, Option.none_or,
      List.dlookup_cons_eq]
  obtain rfl : o = (i, b) := Option.some.inj (hlookup.symm.trans h)
  have hdestroy : (A.destroy a).table.entries = before ++ after := hrest
  rw [count, count, hdestroy, hentries, List.countP_append, List.countP_append, List.countP_cons,
    Nat.add_assoc]

theorem count_eq_zero {p : β → Bool} :
    A.count p = 0 ↔ ∀ a i b, A.object a = some (i, b) → p b = false := by
  rw [count, List.countP_eq_zero]
  constructor
  · intro h a i b hobject
    have hmem : ⟨a, (i, b)⟩ ∈ A.table.entries := AList.mem_lookup_iff.mp hobject
    simpa using h _ hmem
  · rintro h ⟨a, i, b⟩ hmem
    simp [h a i b (AList.mem_lookup_iff.mpr hmem)]

/-! ## Serial numbers -/

theorem serial_eq_some : A.serial a = some i ↔ ∃ b, A.object a = some (i, b) := by
  simp [serial]

theorem serial_eq_none : A.serial a = none ↔ A.object a = none := by
  simp [serial]

theorem serial_lt_born (h : A.serial a = some i) : i < A.born := by
  obtain ⟨b, hb⟩ := serial_eq_some.mp h
  exact A.serial_lt a (i, b) hb

/-- A serial number is at one address only. -/
theorem serial_injective (h : A.serial a = some i) (h' : A.serial c = some i) : a = c := by
  obtain ⟨b, hb⟩ := serial_eq_some.mp h
  obtain ⟨b', hb'⟩ := serial_eq_some.mp h'
  exact A.serial_inj a c (i, b) (i, b') hb hb' rfl

/-- A live object counts. -/
theorem size_pos (h : A.serial a = some i) : 0 < A.size := by
  have hobject : A.object a ≠ none := by
    rw [Ne, ← serial_eq_none, h]
    exact Option.some_ne_none i
  have hsize := size_destroy hobject
  omega

theorem serial_of_construct (h : A.construct a b = some A') (c : Addr) :
    A'.serial c = if c = a then some A.born else A.serial c := by
  rw [serial, object_of_construct h]
  split <;> rfl

@[simp] theorem serial_destroy (A : Arena Addr β) (a c : Addr) :
    (A.destroy a).serial c = if c = a then none else A.serial c := by
  rw [serial, object_destroy]
  split <;> rfl

end Arena
