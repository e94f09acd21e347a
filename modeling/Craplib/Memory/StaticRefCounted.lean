import Mathlib.Algebra.Group.Int.Defs
import Mathlib.Data.List.Basic
import Craplib.Lib.Runs

/-!
# `StaticRefCounted.h`

The holders of one `T` share a counter and a pointer.  The first holder makes the instance
and the last one deletes it; `RWSocket` and `LASocket` hold the `SocketWorker` of their
program so.  The constructor counts before it makes the instance.  When `new T` throws there
is no holder, and so no destructor that would take the count back.

`exact_iff` says for every run that the counter and the pointer tell what holders there are,
in every state, exactly when no `new T` has thrown.
-/

namespace Craplib.Memory

open Machine

/-- The static members of `StaticRefCounted<T>`: `ref_counter` and `sta`. -/
structure StaticRefCounted where
  refCounter : ℤ
  sta : Option ℕ
  deriving DecidableEq, Repr

namespace StaticRefCounted

/-- `StaticRefCounted()`: the static members, the instance that is made and whether the
constructor returns.  `newT` is what `new T` gives when it is called: the address of the
instance, or nothing when it throws. -/
def mkDefault (self : StaticRefCounted) (newT : Option ℕ) : StaticRefCounted × Option ℕ × Bool :=
  let self := { self with refCounter := self.refCounter + 1 }
  if self.refCounter = 1 then
    match newT with
    | some t => ({ self with sta := some t }, some t, true)
    | none => (self, none, false)
  else (self, none, true)

/-- `StaticRefCounted(const StaticRefCounted & src)`. -/
def mkCopy (self : StaticRefCounted) : StaticRefCounted :=
  { self with refCounter := self.refCounter + 1 }

/-- `~StaticRefCounted()`: the static members, and the instance that is deleted. -/
def destroy (self : StaticRefCounted) : StaticRefCounted × Option ℕ :=
  let self := { self with refCounter := self.refCounter - 1 }
  if self.refCounter = 0 then ({ self with sta := none }, self.sta) else (self, none)

variable {self : StaticRefCounted}

theorem mkDefault_first (h : self.refCounter = 0) (newT : Option ℕ) :
    self.mkDefault newT =
      (⟨1, if newT.isSome then newT else self.sta⟩, newT, newT.isSome) := by
  unfold mkDefault
  rw [h]
  cases newT <;> rfl

theorem mkDefault_later (h : self.refCounter ≠ 0) (newT : Option ℕ) :
    self.mkDefault newT = (self.mkCopy, none, true) := by
  unfold mkDefault
  exact if_neg (by simp only; omega)

theorem destroy_last (h : self.refCounter = 1) : self.destroy = (⟨0, none⟩, self.sta) := by
  unfold destroy
  rw [h]
  rfl

theorem destroy_earlier (h : self.refCounter ≠ 1) :
    self.destroy = ({ self with refCounter := self.refCounter - 1 }, none) := by
  unfold destroy
  exact if_neg (by simp only; omega)

/-! ## The holders of a program -/

/-- A program with holders: the static members, the instances of `T` that exist and the
holders that live, by their addresses. -/
structure Program where
  statics : StaticRefCounted
  instances : List ℕ
  holders : List ℕ
  deriving DecidableEq, Repr

/-- Before anything runs. -/
def Program.init : Program := ⟨⟨0, none⟩, [], []⟩

/-- What a program does with holders. -/
inductive Op
  | construct (holder : ℕ) (newT : Option ℕ)
  | copy (holder src : ℕ)
  | destroy (holder : ℕ)
  deriving DecidableEq, Repr

namespace Program

/-- One operation.  A holder is made where none lives, a copy from one that lives, and only
one that lives is destroyed; `new T` gives an address that no instance has. -/
def step (s : Program) : Op → Option Program
  | .construct holder newT =>
    if holder ∈ s.holders ∨ newT.any (· ∈ s.instances) then none
    else
      let (statics, made, returns) := s.statics.mkDefault newT
      some {
        statics
        instances := made.toList ++ s.instances
        holders := if returns then holder :: s.holders else s.holders }
  | .copy holder src =>
    if holder ∈ s.holders ∨ src ∉ s.holders then none
    else some { s with statics := s.statics.mkCopy, holders := holder :: s.holders }
  | .destroy holder =>
    if holder ∉ s.holders then none
    else
      let (statics, deleted) := s.statics.destroy
      some {
        statics
        instances := s.instances.filter (some · ≠ deleted)
        holders := s.holders.erase holder }

/-- The counter is the number of holders; the pointer is set exactly while there are any, and
then to the one instance. -/
structure Exact (s : Program) : Prop where
  counter : s.statics.refCounter = s.holders.length
  pointer : s.statics.sta.isSome = true ↔ 0 < s.holders.length
  instances : s.instances = s.statics.sta.toList

/-- The operation constructs the first holder, and `new T` throws. -/
def Throws (s : Program) : Op → Prop
  | .construct _ newT => s.statics.refCounter = 0 ∧ newT = none
  | _ => False

instance (s : Program) : (a : Op) → Decidable (Throws s a)
  | .construct _ newT => inferInstanceAs (Decidable (s.statics.refCounter = 0 ∧ newT = none))
  | .copy _ _ => inferInstanceAs (Decidable False)
  | .destroy _ => inferInstanceAs (Decidable False)

variable {s t : Program} {a : Op}

theorem exact_init : Exact .init := ⟨rfl, by decide, rfl⟩

theorem Exact.holders_eq_nil (h : Exact s) : s.statics.refCounter = 0 ↔ s.holders = [] := by
  rw [h.counter, ← List.length_eq_zero_iff]
  omega

/-- Another holder, when there are some. -/
theorem Exact.later (h : Exact s) (hsome : s.statics.refCounter ≠ 0) (holder : ℕ) :
    Exact { s with statics := s.statics.mkCopy, holders := holder :: s.holders } where
  counter := by simp [StaticRefCounted.mkCopy, h.counter]
  pointer := by
    have hpos : 0 < s.holders.length := List.length_pos_iff.mpr (mt h.holders_eq_nil.mpr hsome)
    simpa [StaticRefCounted.mkCopy, hpos] using h.pointer
  instances := h.instances

/-- **An operation that does not throw** keeps the counter and the pointer exact. -/
theorem Exact.step (h : Exact s) (hstep : s.step a = some t) (hgood : ¬ Throws s a) : Exact t := by
  cases a with
  | construct holder newT =>
      simp only [Program.step] at hstep
      split at hstep
      · simp at hstep
      obtain rfl := Option.some.inj hstep
      by_cases hnone : s.statics.refCounter = 0
      · -- the first holder, with the instance it makes
        have hnil := h.holders_eq_nil.mp hnone
        obtain ⟨t, rfl⟩ := Option.ne_none_iff_exists'.mp fun hthrow => hgood ⟨hnone, hthrow⟩
        have hgone : s.statics.sta = none := by
          simpa [hnil] using h.pointer
        rw [mkDefault_first hnone]
        exact ⟨by simp [hnil], by simp, by simp [h.instances, hgone]⟩
      · rw [mkDefault_later hnone]
        exact h.later hnone holder
  | copy holder src =>
      simp only [Program.step] at hstep
      split at hstep
      · simp at hstep
      next hsrc =>
        obtain rfl := Option.some.inj hstep
        refine h.later (fun hnone => ?_) holder
        simp [h.holders_eq_nil.mp hnone] at hsrc
  | destroy holder =>
      simp only [Program.step] at hstep
      split at hstep
      · simp at hstep
      next hheld =>
        obtain rfl := Option.some.inj hstep
        have hmem : holder ∈ s.holders := Decidable.not_not.mp hheld
        have hlength := List.length_erase_of_mem hmem
        have hpos := List.length_pos_of_mem hmem
        have hcounter := h.counter
        by_cases hlast : s.statics.refCounter = 1
        · -- the last holder, with the instance it deletes
          have hnil : s.holders.erase holder = [] := List.length_eq_zero_iff.mp (by omega)
          rw [destroy_last hlast]
          refine ⟨by simp [hnil], by simp [hnil], ?_⟩
          rw [h.instances]
          cases s.statics.sta <;> simp
        · rw [destroy_earlier hlast]
          have hleft : 0 < (s.holders.erase holder).length := by omega
          refine ⟨by simp only; omega, ?_, by simp [h.instances]⟩
          simpa [hleft, hpos] using h.pointer

/-- **A `new T` that throws** leaves a count without a holder. -/
theorem not_exact_of_throws (h : Exact s) (hstep : s.step a = some t) (hbad : Throws s a) :
    ¬ Exact t := by
  cases a with
  | construct holder newT =>
      obtain ⟨hnone, rfl⟩ := hbad
      simp only [Program.step] at hstep
      split at hstep
      · simp at hstep
      obtain rfl := Option.some.inj hstep
      rw [mkDefault_first hnone]
      intro hexact
      have hcounter := hexact.counter
      simp [h.holders_eq_nil.mp hnone] at hcounter
  | copy holder src => exact hbad.elim
  | destroy holder => exact hbad.elim

/-- **One instance exactly while it is needed**: in every state of a run the counter is the
number of holders and the pointer is set while there are any, exactly when no `new T` has
thrown. -/
theorem exact_iff {tr : List (Program × Op)} {last : Program}
    (h : Run (Fires step) .init tr last) :
    (∀ s ∈ visited tr last, Exact s) ↔ ∀ p ∈ tr, ¬ Throws p.1 p.2 := by
  have keep : ∀ s a t, Exact s → Fires step s a t → ¬ Throws s a → Exact t :=
    fun _ _ _ hexact hstep hgood => hexact.step hstep hgood
  have blame : ∀ s a t, Exact s → Fires step s a t → ¬ ¬ Throws s a → ¬ Exact t :=
    fun _ _ _ hexact hstep hbad => not_exact_of_throws hexact hstep (not_not.mp hbad)
  exact h.visited_iff_good keep blame (fun _ hexact => hexact) exact_init

/-- Two holders, one of them a copy, and the instance of a third when they are gone. -/
theorem exact_iff_holders :
    ∃ tr last, Run (Fires step) .init tr last ∧ ∀ s ∈ visited tr last, Exact s := by
  let as : List Op := [.construct 1 (some 7), .copy 2 1, .destroy 1, .destroy 2,
    .construct 3 (some 7)]
  let last : Program := (exec step .init as).get (by decide)
  have hlast : exec step .init as = some last := (Option.some_get _).symm
  obtain ⟨hrun, -⟩ := exec_trace _ _ _ _ hlast
  exact ⟨_, _, hrun, (exact_iff hrun).mpr (by decide)⟩

/-- The first construction throws.  The next holder, made where `new T` would work, counts two
and has no instance. -/
theorem exact_fails_after_throw :
    ∃ tr last, Run (Fires step) .init tr last ∧
      actions tr = [.construct 1 none, .construct 1 (some 7)] ∧
      last.statics = ⟨2, none⟩ ∧ last.holders = [1] ∧ ¬ Exact last := by
  let as : List Op := [.construct 1 none, .construct 1 (some 7)]
  let last : Program := (exec step .init as).get (by decide)
  have hlast : exec step .init as = some last := (Option.some_get _).symm
  obtain ⟨hrun, hactions⟩ := exec_trace _ _ _ _ hlast
  refine ⟨_, _, hrun, hactions, by decide, by decide, fun hexact => ?_⟩
  exact absurd hexact.counter (by decide)

end Program

end StaticRefCounted

end Craplib.Memory
