import Craplib.Lib.Comparators
import Craplib.Data.InPlace

/-!
# `Data::compare` is a total order on byte strings

`compare` uses two criteria: the difference of the sizes where they differ, and `memcmp` of
the bytes where they do not.  Its sign is that of one order on byte strings, `shortlex`
(`compare_spec`), whatever the positions of the windows are and whether the operands share a
buffer or not.  So the operands can be replaced by their bytes, and a chain of comparisons
can go from one criterion to the other (`compare_total_order`).
-/

namespace Craplib

open Effects Comparators

/-- The values of an `int`. -/
def IsInt (n : ℤ) : Prop := -2 ^ 31 ≤ n ∧ n < 2 ^ 31

instance (n : ℤ) : Decidable (IsInt n) := inferInstanceAs (Decidable (_ ∧ _))

/-- The difference of two `int`s; an overflow is undefined. -/
def intSub (a b : ℤ) : Option ℤ := if IsInt (a - b) then some (a - b) else none

/-- How far the first two bytes that differ are apart, and zero where none differ. -/
def firstDifference : List Byte → List Byte → ℤ
  | x :: xs, y :: ys => if x = y then firstDifference xs ys else (x.toNat : ℤ) - y.toNat
  | _, _ => 0

/-- `memcmp(s1, s2, n)`. -/
def memcmp (s1 s2 : List Byte) (n : ℤ) : Option ℤ := do
  return firstDifference (← bytesAt s1 n) (← bytesAt s2 n)

namespace Data

/-- `Data::compare`. -/
def compare (self other : Data) : DataM ℤ := do
  if self.size = other.size then
    let s1 ← self.getData
    let s2 ← other.getData
    .ofReader fun _ => memcmp s1 s2 self.size
  else
    .ofReader fun _ => intSub self.size other.size

/-- An operator that tests the result of `compare` against zero. -/
def operator (test : ℤ → ℤ → Bool) (self other : Data) : DataM Bool := do
  return test (← self.compare other) 0

/-- `operator==`. -/
def operatorEq : Data → Data → DataM Bool := operator fun r zero => r = zero

/-- `operator!=`. -/
def operatorNe : Data → Data → DataM Bool := operator fun r zero => r ≠ zero

/-- `operator<`. -/
def operatorLt : Data → Data → DataM Bool := operator fun r zero => r < zero

/-- `operator>`. -/
def operatorGt : Data → Data → DataM Bool := operator fun r zero => r > zero

/-- `operator<=`. -/
def operatorLe : Data → Data → DataM Bool := operator fun r zero => r ≤ zero

/-- `operator>=`. -/
def operatorGe : Data → Data → DataM Bool := operator fun r zero => r ≥ zero

/-- A `Data` with a valid window, and the bytes of that window. -/
structure Operand (m : Mem) where
  data : Data
  bytes : List Byte
  shows : shown m data = some bytes
  isInt : IsInt data.size

end Data

/-! ## The sign of `memcmp` -/

/-- On byte strings of one length, the first difference has the sign of the lexicographic
order. -/
theorem outcome_firstDifference {x y : List Byte} (h : x.length = y.length) :
    outcome (firstDifference x y) = compare x y := by
  induction x generalizing y with
  | nil =>
      obtain rfl : y = [] := List.length_eq_zero_iff.mp h.symm
      rfl
  | cons a x ih =>
      cases y with
      | nil => cases h
      | cons b y =>
          rw [firstDifference, List.compare_cons_cons]
          by_cases hab : a = b
          · have hself : compare a b = .eq := Std.LawfulEqOrd.compare_eq_iff_eq.mpr hab
            rw [if_pos hab, hself, Ordering.eq_then]
            exact ih (Nat.succ.inj h)
          · have hne : compare a b ≠ .eq := fun heq => hab (Std.LawfulEqOrd.eq_of_compare heq)
            rw [if_neg hab, outcome_sub, ← UInt8.compare_eq_toNat_compare_toNat]
            cases hcmp : compare a b with
            | eq => exact absurd hcmp hne
            | lt | gt => rfl

namespace Data

variable {m m' : Mem}

namespace Operand

theorem length_bytes (a : Operand m) : (a.bytes.length : ℤ) = a.data.size := length_shown a.shows

/-- The sizes of two operands can be subtracted. -/
theorem isInt_sub (a b : Operand m) : IsInt (a.data.size - b.data.size) := by
  have ha := a.isInt
  have hb := b.isInt
  have hlen := a.length_bytes
  have hlen' := b.length_bytes
  unfold IsInt at *
  omega

end Operand

/-- **`compare` orders the bytes of its operands**: it is defined, leaves the memory as it
was, and its sign is that of `shortlex`. -/
theorem compare_spec (a b : Operand m) : ∃ r, a.data.compare b.data m = some (.ok r, m) ∧
    outcome r = shortlex a.bytes b.bytes := by
  have hlen := a.length_bytes
  have hlen' := b.length_bytes
  unfold compare
  by_cases hsize : a.data.size = b.data.size
  · -- both runs of bytes are as long as `memcmp` is told
    obtain ⟨s1, hs1, htake⟩ := Option.bind_eq_some_iff.mp a.shows
    obtain ⟨s2, hs2, htake'⟩ := Option.bind_eq_some_iff.mp b.shows
    refine ⟨firstDifference a.bytes b.bytes, ?_, ?_⟩
    · rw [if_pos hsize]
      refine Eff.bind_ofReader_eq_some.mpr ⟨s1, hs1, Eff.bind_ofReader_eq_some.mpr ⟨s2, hs2, ?_⟩⟩
      refine Eff.ofReader_eq_some.mpr ⟨_, ?_, rfl, rfl⟩
      simp [memcmp, htake, hsize ▸ htake']
    · have hsame : a.bytes.length = b.bytes.length := by omega
      rw [outcome_firstDifference hsame, shortlex_of_length_eq hsame]
  · refine ⟨a.data.size - b.data.size, ?_, ?_⟩
    · rw [if_neg hsize]
      exact Eff.ofReader_eq_some.mpr ⟨_, if_pos (a.isInt_sub b), rfl, rfl⟩
    · rw [← hlen, ← hlen', outcome_sub, shortlex_of_length_ne (by omega)]

/-- What an operator returns is what its test says of the result of `compare`. -/
theorem operator_spec {test : ℤ → ℤ → Bool} {d e : Data} {r : ℤ}
    (h : d.compare e m = some (.ok r, m)) :
    operator test d e m = some (.ok (test r 0), m) :=
  Eff.bind_eq_some.mpr (Or.inr ⟨r, m, h, rfl⟩)

/-- The six operators say of two handles what the sign of `r` says. -/
structure OperatorsAgree (m : Mem) (d e : Data) (r : ℤ) : Prop where
  eq : d.operatorEq e m = some (.ok (r = 0), m)
  ne : d.operatorNe e m = some (.ok (r ≠ 0), m)
  lt : d.operatorLt e m = some (.ok (r < 0), m)
  gt : d.operatorGt e m = some (.ok (r > 0), m)
  le : d.operatorLe e m = some (.ok (r ≤ 0), m)
  ge : d.operatorGe e m = some (.ok (r ≥ 0), m)

/-- **`compare` is a total order on byte strings.**  For all operands with valid windows, of
equal sizes or not, at any positions and on shared buffers or not: the subtraction of the
sizes does not overflow; `compare` is defined, is zero exactly for equal byte strings, has
opposite signs for exchanged operands, is transitive, and has the sign it has for any other
operands, in any memory, that show the same bytes; and the six operators agree with it. -/
theorem compare_total_order (a b c : Operand m) : ∃ ab ba bc ac : ℤ,
    a.data.compare b.data m = some (.ok ab, m) ∧ b.data.compare a.data m = some (.ok ba, m) ∧
    b.data.compare c.data m = some (.ok bc, m) ∧ a.data.compare c.data m = some (.ok ac, m) ∧
    IsInt (a.data.size - b.data.size) ∧
    (ab = 0 ↔ a.bytes = b.bytes) ∧
    ((ab < 0 ↔ 0 < ba) ∧ (ab = 0 ↔ ba = 0) ∧ (0 < ab ↔ ba < 0)) ∧
    (ab ≤ 0 → bc ≤ 0 → ac ≤ 0 ∧ (ab < 0 ∨ bc < 0 → ac < 0)) ∧
    (∀ m' (a' b' : Operand m'), a'.bytes = a.bytes → b'.bytes = b.bytes →
      ∃ r, a'.data.compare b'.data m' = some (.ok r, m') ∧ outcome r = outcome ab) ∧
    OperatorsAgree m a.data b.data ab := by
  obtain ⟨ab, hab, hsab⟩ := compare_spec a b
  obtain ⟨ba, hba, hsba⟩ := compare_spec b a
  obtain ⟨bc, hbc, hsbc⟩ := compare_spec b c
  obtain ⟨ac, hac, hsac⟩ := compare_spec a c
  refine ⟨ab, ba, bc, ac, hab, hba, hbc, hac, a.isInt_sub b, eq_zero_iff hsab,
    opposite hsab hsba, chain hsab hsbc hsac, fun m' a' b' ha hb => ?_, ?_⟩
  · obtain ⟨r, hr, hsr⟩ := compare_spec a' b'
    exact ⟨r, hr, by rw [hsr, hsab, ha, hb]⟩
  · exact ⟨operator_spec hab, operator_spec hab, operator_spec hab, operator_spec hab,
      operator_spec hab, operator_spec hab⟩

/-- Three windows of one buffer: the first two show the same bytes at different positions, and
the third is the larger one because it is longer. -/
theorem compare_total_order_windows :
    let m : Mem := ⟨⟨[some ⟨1, 1⟩, some ⟨3, 3⟩], []⟩, [none, some ⟨[7, 8, 7, 8, 0], 5, rfl⟩]⟩
    let window (position size : ℤ) : Data := ⟨⟨⟨some 1, 1⟩⟩, position, size⟩
    (window 0 2).compare (window 2 2) m = some (.ok 0, m) ∧
    (window 2 2).compare (window 2 3) m = some (.ok (-1), m) ∧
    (∃ ac < 0, (window 0 2).compare (window 2 3) m = some (.ok ac, m)) ∧
    OperatorsAgree m (window 0 2) (window 2 2) 0 := by
  intro m window
  let a : Operand m := ⟨window 0 2, [7, 8], by decide, by decide⟩
  let b : Operand m := ⟨window 2 2, [7, 8], by decide, by decide⟩
  let c : Operand m := ⟨window 2 3, [7, 8, 0], by decide, by decide⟩
  obtain ⟨ab, ba, bc, ac, hab, -, hbc, hac, -, heq, -, hchain, -, hagree⟩ :=
    compare_total_order a b c
  obtain rfl : ab = 0 := heq.mpr rfl
  have hlonger : b.data.compare c.data m = some (.ok (-1), m) := by decide
  rw [hbc] at hlonger
  obtain rfl : bc = -1 := by simpa using hlonger
  have hsmaller : ac < 0 := (hchain (by decide) (by decide)).2 (.inr (by decide))
  exact ⟨hab, hbc, ⟨ac, hsmaller, hac⟩, hagree⟩

end Data

end Craplib
