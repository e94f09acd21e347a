import Craplib.Http.Lines

/-!
# The header limit

A byte that the parser keeps is in one place: in `buf`, in `curLine`, or in what `parseLine`
has made of its line.  So the parser holds no more bytes than it has counted (`held_take`),
and below the limit the count is the number of bytes of the stream (`count_eq`).

The limit itself is not stored.  It is final because `count` never falls: past the limit a
`write` takes a byte, counts it and returns (`writes_final`).
-/

namespace Craplib

namespace IStream

/-! ## What an extraction can take -/

theorem sentry_rest_le (s : IStream) (noskipws : Bool) :
    (s.sentry noskipws).1.rest.length ≤ s.rest.length := by
  have hdrop := (List.dropWhile_sublist (l := s.rest) isSpace).length_le
  unfold sentry
  dsimp only
  split_ifs
  · exact Nat.le_refl _
  · exact hdrop
  · exact hdrop
  · exact Nat.le_refl _

/-- `>>` moves bytes of the stream into its target, or leaves both. -/
theorem extractStr_length_le (s : IStream) (str : Str) :
    (s.extractStr str).2.length + (s.extractStr str).1.rest.length ≤
      str.length + s.rest.length := by
  have hrest := sentry_rest_le s false
  unfold extractStr
  generalize s.sentry false = r at hrest ⊢
  obtain ⟨t, ok⟩ := r
  cases ok with
  | false =>
      dsimp only at hrest ⊢
      omega
  | true =>
      have hword := congrArg List.length
        (List.takeWhile_append_dropWhile (p := fun c => !isSpace c) (l := t.rest))
      rw [List.length_append] at hword
      dsimp only at hrest ⊢
      omega

theorem extractInt_rest_le (s : IStream) (code : ℤ) :
    (s.extractInt code).1.rest.length ≤ s.rest.length := by
  have hrest := sentry_rest_le s false
  unfold extractInt
  generalize s.sentry false = r at hrest ⊢
  obtain ⟨t, ok⟩ := r
  cases ok with
  | false => exact hrest
  | true =>
      dsimp only at hrest ⊢
      refine Nat.le_trans ?_ hrest
      have hbody : (if t.rest.head? = some 45 ∨ t.rest.head? = some 43 then t.rest.tail
          else t.rest).length ≤ t.rest.length := by
        split_ifs
        · exact (List.tail_sublist _).length_le
        · exact Nat.le_refl _
      generalize (if t.rest.head? = some 45 ∨ t.rest.head? = some 43 then t.rest.tail
        else t.rest) = body at hbody ⊢
      have hdigits := (List.dropWhile_sublist (l := body) isDigit).length_le
      split_ifs <;> exact Nat.le_trans hdigits hbody

/-- `getline` moves bytes of the stream into its target, or leaves both. -/
theorem getline_length_le (s : IStream) (str : Str) :
    (s.getline str).2.length ≤ str.length + s.rest.length := by
  have hrest := sentry_rest_le s true
  unfold getline
  generalize s.sentry true = r at hrest ⊢
  obtain ⟨t, ok⟩ := r
  cases ok with
  | false =>
      dsimp only at hrest ⊢
      omega
  | true =>
      have hline := (List.takeWhile_sublist (l := t.rest) (· != LF)).length_le
      dsimp only at hrest ⊢
      split <;> dsimp only <;> omega

end IStream

namespace HTTPHeadersParser

variable {q q' : HTTPHeadersParser}

/-! ## The bytes the parser holds -/

/-- The bytes of a header. -/
def headerSize (e : Str × Str) : ℕ := e.1.length + e.2.length

/-- The bytes of what has been parsed. -/
def parsedSize (self : HTTPHeadersParser) : ℕ :=
  self.method.length + self.action.length + self.version.length + self.status.length +
    self.headers.weight headerSize

/-- The bytes the parser holds. -/
def held (self : HTTPHeadersParser) : ℕ :=
  self.buf.length + self.curLine.length + self.parsedSize

/-- A line that is parsed adds no more than its bytes. -/
theorem parsedSize_parseLine (line : Str) :
    (q.parseLine line).parsedSize ≤ q.parsedSize + line.length := by
  unfold parseLine
  by_cases hone : q.lineNum = 1
  · rw [if_pos hone]
    cases q.type with
    | REQUEST =>
        have hmethod := (IStream.ofStr line).extractStr_length_le q.method
        generalize (IStream.ofStr line).extractStr q.method = r at hmethod ⊢
        dsimp only
        have haction := r.1.extractStr_length_le q.action
        generalize r.1.extractStr q.action = r' at haction ⊢
        have hversion := r'.1.extractStr_length_le q.version
        simp only [parsedSize, IStream.ofStr] at hmethod ⊢
        omega
    | RESPONSE =>
        have hversion := (IStream.ofStr line).extractStr_length_le q.version
        generalize (IStream.ofStr line).extractStr q.version = r at hversion ⊢
        dsimp only
        have hcode := r.1.extractInt_rest_le q.code
        generalize r.1.extractInt q.code = r' at hcode ⊢
        have hstatus := r'.1.getline_length_le q.status
        simp only [parsedSize, IStream.ofStr] at hversion ⊢
        omega
  · rw [if_neg hone]
    have hkey := (IStream.ofStr line).extractStr_length_le []
    generalize (IStream.ofStr line).extractStr [] = r at hkey ⊢
    dsimp only
    have hvalue := r.1.getline_length_le []
    generalize r.1.getline [] = r' at hvalue ⊢
    split_ifs
    · omega
    · have hnew := q.headers.weight_insertNew_le headerSize r.2.dropLast r'.2.tail
      simp only [headerSize, List.length_dropLast, List.length_tail] at hnew
      simp only [parsedSize, IStream.ofStr, List.length_nil] at hkey hvalue ⊢
      omega

theorem held_beginLine (p : UInt8) : (q.beginLine p).held ≤ q.held := by
  have hline := parsedSize_parseLine (q := q) q.curLine
  unfold beginLine
  split_ifs
  · exact Nat.le_refl _
  · simp only [held, parsedSize, parseLine_buf, List.length_nil] at hline ⊢
    omega
  · exact Nat.le_refl _

/-- **A byte adds at most one** to what the parser holds. -/
theorem held_take (p : UInt8) : (q.take p).held ≤ q.held + 1 := by
  unfold take
  by_cases hcr : p = CR
  · rw [if_pos hcr]
    exact Nat.le_succ _
  · rw [if_neg hcr]
    by_cases hlf : p = LF
    · rw [if_pos hlf]
      dsimp only
      split_ifs
      · simp only [held, parsedSize, List.length_nil]
        omega
      · simp only [endLine, held, parsedSize, List.length_nil, List.length_append]
        omega
    · rw [if_neg hlf, store]
      have hbegin := held_beginLine (q := { q with count := q.count + 1 }) p
      dsimp only
      split_ifs
      · simp only [held, parsedSize, List.length_append, List.length_singleton] at hbegin ⊢
        omega
      · simp only [held, parsedSize, List.length_append, List.length_singleton]
        omega

/-! ## Below the limit and past it -/

variable (tp : ParserType) {lim : ℤ}

/-- The parser counts the bytes of the stream, until it is ready or the limit is met. -/
theorem count_eq (hpos : 0 < lim) {pre : List UInt8}
    (hready : (pre.foldl absorb (fresh tp lim)).ready = false) :
    (pre.foldl absorb (fresh tp lim)).count = min (pre.length : ℤ) (lim - 1) := by
  induction pre using List.reverseRecOn with
  | nil => simp only [List.foldl_nil, fresh, List.length_nil]; omega
  | append_singleton pre p ih =>
      have hopen : (pre.foldl absorb (fresh tp lim)).ready = false := by
        rw [Bool.eq_false_iff] at hready ⊢
        exact mt (ready_mono (List.prefix_append pre [p])) hready
      have hcount := ih hopen
      have hlimit := (count_le tp lim pre).2
      rw [List.foldl_append, List.foldl_cons, List.foldl_nil, List.length_append,
        List.length_singleton, absorb]
      by_cases hmet : (pre.foldl absorb (fresh tp lim)).limit ≤
          (pre.foldl absorb (fresh tp lim)).count + 1
      · rw [if_pos (Or.inr hmet)]
        omega
      · rw [if_neg (by simp [hopen, hmet]), take_count]
        omega

/-- **The count bounds what is held**. -/
theorem held_le_count (hpos : 0 < lim) (pre : List UInt8) :
    ((pre.foldl absorb (fresh tp lim)).held : ℤ) ≤ (pre.foldl absorb (fresh tp lim)).count ∧
      (pre.foldl absorb (fresh tp lim)).count < lim := by
  induction pre using List.reverseRecOn with
  | nil => exact ⟨by simp [fresh, held, parsedSize, SortedMap.weight, Weights.total], hpos⟩
  | append_singleton pre p ih =>
      obtain ⟨hcount, hlimit⟩ := count_le tp lim pre
      rw [List.foldl_append, List.foldl_cons, List.foldl_nil, absorb]
      split_ifs with hfixed
      · exact ih
      · have hheld := held_take (q := pre.foldl absorb (fresh tp lim)) p
        rw [take_count]
        omega

/-- A parser that is ready has met its first empty line below the limit. -/
theorem firstEmptyLine_of_ready (hpos : 0 < lim) {bytes : List UInt8}
    (hready : (bytes.foldl absorb (fresh tp lim)).ready = true) :
    ∃ pre, pre <+: bytes ∧ FirstEmptyLine pre ∧ (pre.length : ℤ) < lim := by
  induction bytes using List.reverseRecOn with
  | nil => simp [fresh] at hready
  | append_singleton line p ih =>
      cases hopen : (line.foldl absorb (fresh tp lim)).ready with
      | true =>
          obtain ⟨pre, hpre, hfirst⟩ := ih hopen
          exact ⟨pre, hpre.trans (List.prefix_append _ _), hfirst⟩
      | false =>
          have hcount := count_eq tp hpos hopen
          have hlimit := (count_le tp lim line).2
          -- the last byte is not lost at the limit, since it makes the parser ready
          have hroom : ¬ (line.foldl absorb (fresh tp lim)).limit ≤
              (line.foldl absorb (fresh tp lim)).count + 1 := by
            intro hmet
            rw [List.foldl_append, List.foldl_cons, List.foldl_nil, absorb,
              if_pos (Or.inr hmet), hopen] at hready
            simp at hready
          have hshort : ((line ++ [p]).length : ℤ) < lim := by
            rw [List.length_append, List.length_singleton]
            omega
          have hend : EndsEmptyLine (line ++ [p]) := by
            have hiff := ready_iff_endsEmptyLine tp lim line p
            rw [view_fresh tp hpos] at hiff
            exact (hiff hopen hroom).mp hready
          refine ⟨line ++ [p], List.prefix_rfl, ⟨hend, fun p' hp' hempty => ?_⟩, hshort⟩
          by_contra hne
          have hline : p' <+: line := by
            rcases List.prefix_concat_iff.mp hp' with heq | hpre
            · exact absurd heq hne
            · exact hpre
          have hshorter := hp'.length_le
          have hbefore := ready_mono hline (ready_of_endsEmptyLine lim tp hempty (by omega))
          rw [hopen] at hbefore
          simp at hbefore

/-! ## All writes -/

/-- Hand chunks to `write`, one after the other. -/
def writes (self : HTTPHeadersParser) (chunks : List (List UInt8)) : HTTPHeadersParser :=
  chunks.foldl (fun q data => (q.write data).1) self

theorem view_writes (self : HTTPHeadersParser) (chunks : List (List UInt8)) :
    (self.writes chunks).view = chunks.flatten.foldl absorb self.view := by
  induction chunks generalizing self with
  | nil => rfl
  | cons data chunks ih =>
      have hstep : (self.write data).1.view = data.foldl absorb self.view := by
        cases hready : self.ready with
        | true => rw [write, if_pos hready, ready_foldl_absorb (by exact hready)]
        | false => rw [write_eq_consume self data hready, absorbs.view_consume hready]
      rw [List.flatten_cons, List.foldl_append, ← hstep]
      exact ih _

/-- The view changes nothing but the count. -/
theorem eq_of_view_eq (h : q.view = q'.view) : { q with count := q'.count } = q' :=
  (congrArg (fun v : HTTPHeadersParser => { v with count := q'.count }) h :)

theorem foldl_absorb_of_met (h : q.limit ≤ q.count + 1) (bytes : List UInt8) :
    bytes.foldl absorb q = q :=
  Incremental.foldl_of_fixed (fun p => by rw [absorb, if_pos (Or.inr h)]) bytes

theorem met_fresh_zero : (fresh tp 0).view.limit ≤ (fresh tp 0).view.count + 1 := by
  cases tp <;> decide

/-- With a limit of zero no byte is taken. -/
theorem view_writes_zero (chunks : List (List UInt8)) :
    ((fresh tp 0).writes chunks).view = (fresh tp 0).view := by
  rw [view_writes]
  exact foldl_absorb_of_met (met_fresh_zero tp) _

theorem held_writes_le (hlim : 0 ≤ lim) (chunks : List (List UInt8)) :
    (((fresh tp lim).writes chunks).held : ℤ) ≤ lim := by
  have hview : ((fresh tp lim).writes chunks).held = ((fresh tp lim).writes chunks).view.held := rfl
  rcases Int.lt_or_eq_of_le hlim with hpos | rfl
  · obtain ⟨hheld, hcount⟩ := held_le_count tp hpos chunks.flatten
    rw [hview, view_writes, view_fresh tp hpos]
    omega
  · rw [hview, view_writes_zero]
    exact Int.le_refl 0

theorem ready_writes_iff (hlim : 0 ≤ lim) (chunks : List (List UInt8)) :
    ((fresh tp lim).writes chunks).ready = true ↔
      ∃ pre, pre <+: chunks.flatten ∧ FirstEmptyLine pre ∧ (pre.length : ℤ) < lim := by
  have hview : ((fresh tp lim).writes chunks).ready =
      ((fresh tp lim).writes chunks).view.ready := rfl
  rcases Int.lt_or_eq_of_le hlim with hpos | rfl
  · rw [hview, view_writes, view_fresh tp hpos]
    constructor
    · exact firstEmptyLine_of_ready tp hpos
    · rintro ⟨pre, hpre, hfirst, hshort⟩
      exact ready_mono hpre (ready_of_endsEmptyLine lim tp hfirst.1 hshort)
  · rw [hview, view_writes_zero]
    constructor
    · intro hready
      simp [view, fresh] at hready
    · rintro ⟨pre, -, -, hshort⟩
      omega

/-- Past the limit nothing changes but the count. -/
theorem writes_final (hlim : 0 ≤ lim) {chunks : List (List UInt8)}
    (hmet : lim ≤ chunks.flatten.length)
    (hready : ((fresh tp lim).writes chunks).ready = false) (more : List (List UInt8)) :
    { ((fresh tp lim).writes chunks).writes more with
      count := ((fresh tp lim).writes chunks).count } = (fresh tp lim).writes chunks := by
  refine eq_of_view_eq ?_
  rw [view_writes]
  refine foldl_absorb_of_met ?_ _
  rcases Int.lt_or_eq_of_le hlim with hpos | rfl
  · have hopen : (chunks.flatten.foldl absorb (fresh tp lim)).ready = false := by
      rw [← view_fresh tp hpos, ← view_writes]
      exact hready
    have hcount := count_eq tp hpos hopen
    have hlimit := (count_le tp lim chunks.flatten).2
    rw [view_writes, view_fresh tp hpos, hcount, hlimit]
    omega
  · rw [view_writes_zero]
    exact met_fresh_zero tp

/-- **The limit bounds the parser and is final.**  Whatever is written, in any chunks (and so
between any two bytes of a `write`, which is then a shorter one), the parser holds no more
bytes than the limit; it is ready exactly when the first empty line of the stream ends before
the byte of that number; and once that many bytes have been written and it is not ready,
further writes change nothing but `count`. -/
theorem writes_limit (tp : ParserType) (lim : ℤ) (hlim : 0 ≤ lim) (chunks : List (List UInt8)) :
    (((fresh tp lim).writes chunks).held : ℤ) ≤ lim ∧
    (((fresh tp lim).writes chunks).ready = true ↔
      ∃ pre, pre <+: chunks.flatten ∧ FirstEmptyLine pre ∧ (pre.length : ℤ) < lim) ∧
    (lim ≤ chunks.flatten.length → ((fresh tp lim).writes chunks).ready = false →
      ∀ more, { ((fresh tp lim).writes chunks).writes more with
        count := ((fresh tp lim).writes chunks).count } = (fresh tp lim).writes chunks) :=
  ⟨held_writes_le tp hlim chunks, ready_writes_iff tp hlim chunks, writes_final tp hlim⟩

/-- A limit of ten bytes, met inside the start line; the empty line comes too late. -/
theorem writes_limit_ten :
    (((fresh .REQUEST 10).writes [[71, 32, 47, 97, 98], [99, 100, 101, 102, 103, 104]]).held : ℤ) ≤
      10 ∧
    ∀ more, { ((fresh .REQUEST 10).writes [[71, 32, 47, 97, 98],
        [99, 100, 101, 102, 103, 104]]).writes more with
      count := ((fresh .REQUEST 10).writes [[71, 32, 47, 97, 98],
        [99, 100, 101, 102, 103, 104]]).count } =
      (fresh .REQUEST 10).writes [[71, 32, 47, 97, 98], [99, 100, 101, 102, 103, 104]] :=
  have h := writes_limit .REQUEST 10 (by decide)
    [[71, 32, 47, 97, 98], [99, 100, 101, 102, 103, 104]]
  ⟨h.1, h.2.2 (by decide) (by decide)⟩

end HTTPHeadersParser

end Craplib
