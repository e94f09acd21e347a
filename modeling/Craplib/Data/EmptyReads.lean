import Craplib.Data.Fifo

/-!
# What an empty `read` says about a `DataDeque`

The counter of a deque is always the total size of its chunks, but `read` looks at the list
of chunks: a `Data` of zero length is pushed like any other, and is what the next `read`
gives, whatever is stored behind it.  A consumer that takes an empty result for the end of
the data stops there (`empty_read_iff`).

A cut leaves no empty chunk, since the front chunk is cut only where it is longer than the
bound.  An empty chunk is therefore always one that was written (`not_masked_of_writes`).
-/

namespace Craplib

open Memory Effects

namespace DataDeque

variable {q q' : DataDeque} {bound : Option ℤ} {x : Data}

/-- The counter of the deque is the total size of its chunks. -/
def Counted (q : DataDeque) : Prop := q.size = (q.mData.map Data.size).sum

/-- No stored chunk is empty. -/
def Solid (q : DataDeque) : Prop := ∀ d ∈ q.mData, d.size ≠ 0

/-- The first chunk has no bytes, and the deque has. -/
def Masked (q : DataDeque) : Prop := (∃ fr ∈ q.mData.head?, fr.size = 0) ∧ q.size ≠ 0

instance (q : DataDeque) : Decidable q.Masked :=
  inferInstanceAs (Decidable ((∃ fr ∈ q.mData.head?, fr.size = 0) ∧ q.size ≠ 0))

theorem Solid.not_masked (h : q.Solid) : ¬ q.Masked := by
  rintro ⟨⟨fr, hfr, hzero⟩, -⟩
  exact h fr (List.mem_of_mem_head? hfr) hzero

/-- **One read**: an empty result means an empty deque exactly when no bytes stand behind an
empty first chunk. -/
theorem Split.empty_iff (h : q.Split bound x q') (hq : q.Counted) (hbound : ∀ n ∈ bound, 0 < n) :
    (x.size = 0 → q.size = 0) ↔ ¬ q.Masked := by
  cases h with
  | nothing hnil _ =>
      have hzero : q.size = 0 := by rw [hq, hnil]; rfl
      simp [Masked, hzero]
  | whole hcons _ => simp [Masked, hcons]
  | @part fr rest n hcons hn hcut =>
      -- both parts of a cut have bytes
      have hpos : 0 < n := hbound n hn
      have hfst : (fr.slice 0 n).size ≠ 0 := by
        simp only [Data.slice]
        omega
      have hfr : fr.size ≠ 0 := by omega
      simp [Masked, hcons, hfst, hfr]

/-! ## Invariants of a deque -/

/-- `P` holds of a new deque, and every write of a `Data` with `W` and every read keep it. -/
structure Invariant (W : Data → Prop) (P : DataDeque → Prop) : Prop where
  new : P mkDefault
  write : ∀ q d, P q → W d → P ⟨q.mData ++ [d], q.size + d.size⟩
  split : ∀ q bound x q', P q → q.Split bound x q' → P q'

theorem Invariant.counted : Invariant (fun _ => True) Counted where
  new := rfl
  write q d h _ := by
    rw [Counted] at h ⊢
    simp [h]
  split q bound x q' h hsplit := by
    rw [Counted] at h ⊢
    cases hsplit with
    | nothing => exact h
    | whole hq _ =>
        simp only [h, hq, List.map_cons, List.sum_cons]
        omega
    | part hq _ _ =>
        simp only [h, hq, Data.slice, List.map_cons, List.sum_cons]
        omega

theorem Invariant.solid : Invariant (fun d => d.size ≠ 0) Solid where
  new := by simp [Solid, mkDefault]
  write q d h hd := by
    intro c hc
    rcases List.mem_append.mp hc with hc | hc
    · exact h c hc
    · exact List.mem_singleton.mp hc ▸ hd
  split q bound x q' h hsplit := by
    cases hsplit with
    | nothing => exact h
    | whole hq _ => exact fun c hc => h c (hq ▸ List.mem_cons_of_mem _ hc)
    | part hq _ hcut =>
        intro c hc
        rcases List.mem_cons.mp hc with rfl | hc
        · simp only [Data.slice]
          omega
        · exact h c (hq ▸ List.mem_cons_of_mem _ hc)

end DataDeque

namespace Program

variable {s s' : Program} {q : ℕ} {op : DataOp} {tr : List (Program × DataOp)}
  {W : Data → Prop} {P : DataDeque → Prop}

/-- **One step** keeps an invariant of deque `q`. -/
theorem invariant_step (h : DataDeque.Invariant W P)
    (hwrite : ∀ d data, op = .dequeWrite q d → Slots.lookup s.vars d = some data → W data)
    (hbound : ∀ d maxSize, op = .dequeReadMax q d maxSize → 0 ≤ maxSize)
    (hP : ∀ x, Slots.lookup s.deques q = some x → P x) (hstep : s.step op = some s') :
    ∀ x, Slots.lookup s'.deques q = some x → P x := by
  intro x' hx'
  by_cases hq : op.deque = some q
  · obtain ⟨⟨x, hx⟩, -⟩ := step_deque hq hstep
    have hread : ∀ {d bound}, op.Reads q d bound → (∀ n ∈ bound, 0 ≤ n) → P x' := by
      intro d bound hop hn
      obtain ⟨y, x'', hsplit, -, -, hlookup⟩ := step_read hop hn hstep hx
      obtain rfl := Option.some.inj (hx'.symm.trans hlookup)
      exact h.split x bound y x' (hP x hx) hsplit
    cases op with
    | dequeWrite k d =>
        obtain rfl : k = q := Option.some.inj hq
        obtain ⟨data, hdata, -, hlookup⟩ := step_write hstep hx
        obtain rfl := Option.some.inj (hx'.symm.trans hlookup)
        exact h.write x data (hP x hx) (hwrite d data rfl hdata)
    | dequeRead k d =>
        obtain rfl : k = q := Option.some.inj hq
        exact hread .read (by simp)
    | dequeReadMax k d maxSize =>
        obtain rfl : k = q := Option.some.inj hq
        exact hread (.readMax maxSize) (by simpa using hbound d maxSize rfl)
    | dequeDestroy k =>
        obtain rfl : k = q := Option.some.inj hq
        cases (step_destroy hstep).symm.trans hx'
    | mkDefault | mkSize | mkBytes | mkCopy | mkSlice | assign | swap | destroy | getByte | fill
    | copy | stores | dequeNew => simp [DataOp.deque] at hq
  · rcases lookup_other hq hstep with ⟨-, hkept⟩ | ⟨-, hmade⟩
    · exact hP x' (hkept.symm.trans hx')
    · obtain rfl := Option.some.inj (hx'.symm.trans hmade)
      exact h.new

/-- **Every run** keeps it. -/
theorem invariant_of_run (h : DataDeque.Invariant W P)
    (hrun : Machine.Run (Machine.Fires step) Program.init tr s)
    (hwrites : ∀ p ∈ tr, ∀ d data, p.2 = .dequeWrite q d →
      Slots.lookup p.1.vars d = some data → W data)
    (hbounds : ∀ p ∈ tr, ∀ d maxSize, p.2 = .dequeReadMax q d maxSize → 0 ≤ maxSize) :
    ∀ x, Slots.lookup s.deques q = some x → P x := by
  induction hrun with
  | nil => exact fun x hx => by simp [Program.init, Slots.lookup] at hx
  | @snoc tr t u op _ hfire ih =>
      have hlast : (t, op) ∈ tr ++ [(t, op)] := by simp
      refine invariant_step h (hwrites _ hlast) (hbounds _ hlast) ?_ hfire
      exact ih (fun p hp => hwrites p (List.mem_append_left _ hp))
        fun p hp => hbounds p (List.mem_append_left _ hp)

/-- As long as only `Data` with bytes is written, no read is misled. -/
theorem not_masked_of_writes {x : DataDeque}
    (hrun : Machine.Run (Machine.Fires step) Program.init tr s)
    (hwrites : ∀ p ∈ tr, ∀ d data, p.2 = .dequeWrite q d →
      Slots.lookup p.1.vars d = some data → data.size ≠ 0)
    (hbounds : ∀ p ∈ tr, ∀ d maxSize, p.2 = .dequeReadMax q d maxSize → 0 ≤ maxSize)
    (hx : Slots.lookup s.deques q = some x) : ¬ x.Masked :=
  (invariant_of_run .solid hrun hwrites hbounds x hx).not_masked

/-- **What an empty read means.**  In every state that writes and reads with bounds that are
not negative lead to, and for both forms of `read`: an empty result means that `getSize()` was
zero exactly when no bytes stand behind an empty first chunk.  Where the steps were proper for
the deque, a consumer that stops at an empty result has read all that was written exactly then. -/
theorem empty_read_iff (hrun : Machine.Run (Machine.Fires step) Program.init tr s)
    (hbounds : ∀ p ∈ tr, ∀ d maxSize, p.2 = .dequeReadMax q d maxSize → 0 ≤ maxSize)
    {d : ℕ} {bound : Option ℤ} (hread : op.Reads q d bound) (hpos : ∀ n ∈ bound, 0 < n)
    (hstep : s.step op = some s') {x : DataDeque} (hx : Slots.lookup s.deques q = some x)
    {y : Data} (hy : Slots.lookup s'.vars d = some y) :
    ((y.size = 0 → x.size = 0) ↔ ¬ x.Masked) ∧
      ((∀ p ∈ tr, Proper q p.1 p.2) → y.size = 0 →
        (returned q tr = written q tr ↔ ¬ x.Masked)) := by
  have hcounted : x.Counted := invariant_of_run .counted hrun (by simp) hbounds x hx
  obtain ⟨z, x', hsplit, -, hz, -⟩ :=
    step_read hread (fun n hn => Int.le_of_lt (hpos n hn)) hstep hx
  obtain rfl := Option.some.inj (hy.symm.trans hz)
  have hiff := hsplit.empty_iff hcounted hpos
  refine ⟨hiff, fun hproper hempty => ?_⟩
  obtain ⟨hv, hlog⟩ := (Fifo.of_run hrun hproper).exact x hx
  have hlength := length_bytes hv
  calc returned q tr = written q tr
      ↔ x.bytes s.mem = [] := by rw [← hlog, List.self_eq_append_right]
    _ ↔ x.size = 0 := by rw [← List.length_eq_zero_iff]; omega
    _ ↔ ¬ x.Masked := by rw [← hiff, forall_prop_of_true hempty]

/-- Three bytes are read in two parts, and the third read is empty. -/
theorem empty_read_iff_drained : ∃ tr s s' x y,
    Machine.Run (Machine.Fires step) Program.init tr s ∧
    Machine.actions tr = [.mkBytes 3 [1, 2, 3], .mkDefault, .dequeNew, .dequeWrite 0 0,
      .dequeReadMax 0 1 2, .dequeReadMax 0 1 2] ∧
    s.step (.dequeReadMax 0 1 2) = some s' ∧ Slots.lookup s.deques 0 = some x ∧
    Slots.lookup s'.vars 1 = some y ∧ y.size = 0 ∧ (y.size = 0 → x.size = 0) ∧
    returned 0 tr = written 0 tr := by
  let ops : List DataOp := [.mkBytes 3 [1, 2, 3], .mkDefault, .dequeNew, .dequeWrite 0 0,
    .dequeReadMax 0 1 2, .dequeReadMax 0 1 2]
  let s := (Machine.exec step Program.init ops).get (by decide)
  have hs : Machine.exec step Program.init ops = some s := (Option.some_get _).symm
  obtain ⟨hrun, hacts⟩ := Machine.exec_trace _ _ _ _ hs
  let s' := (s.step (.dequeReadMax 0 1 2)).get (by decide)
  have hstep : s.step (.dequeReadMax 0 1 2) = some s' := (Option.some_get _).symm
  let x := (Slots.lookup s.deques 0).get (by decide)
  have hx : Slots.lookup s.deques 0 = some x := (Option.some_get _).symm
  let y := (Slots.lookup s'.vars 1).get (by decide)
  have hy : Slots.lookup s'.vars 1 = some y := (Option.some_get _).symm
  have hproper : ∀ p ∈ Machine.trace step Program.init ops, Proper 0 p.1 p.2 := by decide
  obtain ⟨hempty, hseen⟩ := empty_read_iff hrun (fun p hp => (hproper p hp).bounded)
    (.readMax 2) (by decide) hstep hx hy
  exact ⟨_, s, s', x, y, hrun, hacts, hstep, hx, hy, by decide, hempty.mpr (by decide),
    (hseen hproper (by decide)).mpr (by decide)⟩

/-- An empty `Data` is written, and then three bytes: the first read gives nothing, while
`getSize()` is three. -/
theorem empty_read_before_bytes : ∃ tr s s' x y,
    Machine.Run (Machine.Fires step) Program.init tr s ∧
    Machine.actions tr = [.mkDefault, .mkBytes 3 [1, 2, 3], .mkDefault, .dequeNew,
      .dequeWrite 0 0, .dequeWrite 0 1] ∧
    s.step (.dequeRead 0 2) = some s' ∧ Slots.lookup s.deques 0 = some x ∧
    Slots.lookup s'.vars 2 = some y ∧ y.size = 0 ∧ x.size = 3 ∧
    ¬ (y.size = 0 → x.size = 0) ∧ returned 0 tr = [] ∧ written 0 tr = [1, 2, 3] := by
  let ops : List DataOp := [.mkDefault, .mkBytes 3 [1, 2, 3], .mkDefault, .dequeNew,
    .dequeWrite 0 0, .dequeWrite 0 1]
  let s := (Machine.exec step Program.init ops).get (by decide)
  have hs : Machine.exec step Program.init ops = some s := (Option.some_get _).symm
  obtain ⟨hrun, hacts⟩ := Machine.exec_trace _ _ _ _ hs
  let s' := (s.step (.dequeRead 0 2)).get (by decide)
  let x := (Slots.lookup s.deques 0).get (by decide)
  let y := (Slots.lookup s'.vars 2).get (by decide)
  exact ⟨_, s, s', x, y, hrun, hacts, (Option.some_get _).symm, (Option.some_get _).symm,
    (Option.some_get _).symm, by decide, by decide, by decide, by decide, by decide⟩

end Program

end Craplib
