import Craplib.Http.Chunking

/-!
# What `write` does with one line

The bytes of a line are kept in `buf`, without the carriage returns, and the first one
that is kept begins the line (`beginLine`); the line feed appends `buf` to the logical line.
A line without any byte but carriage returns is the empty line: it makes the parser ready.

`foldl_bytesLine` and `foldl_emptyLine` say so, and `ready_of_endsEmptyLine` that below the
limit nothing else is needed for the parser to be ready.
-/

namespace Craplib

namespace HTTPHeadersParser

section Bytes

variable {q : HTTPHeadersParser}

theorem absorb_eq_take (hready : q.ready = false) (hlim : q.count + 1 < q.limit) (p : UInt8) :
    q.absorb p = q.take p :=
  if_neg (by simp [hready, hlim])

theorem absorb_cr (hready : q.ready = false) (hlim : q.count + 1 < q.limit) :
    q.absorb CR = { q with count := q.count + 1 } := by
  rw [absorb_eq_take hready hlim, take, if_pos rfl]

theorem absorb_lf (hready : q.ready = false) (hlim : q.count + 1 < q.limit) (hbuf : q.buf ≠ []) :
    q.absorb LF = { q with
      count := q.count + 1
      lineNum := q.lineNum + 1
      curLine := q.curLine ++ q.buf
      buf := [] } := by
  rw [absorb_eq_take hready hlim, take, if_neg (by decide), if_pos rfl, if_neg hbuf, endLine]

theorem absorb_lf_empty (hready : q.ready = false) (hlim : q.count + 1 < q.limit)
    (hbuf : q.buf = []) : q.absorb LF =
      { q with count := q.count + 1, lineNum := q.lineNum + 1, ready := true } := by
  rw [absorb_eq_take hready hlim, take, if_neg (by decide), if_pos rfl, if_pos hbuf]
  simp only [← hbuf]

/-- Bytes of a line that has begun are stored, all but the carriage returns. -/
theorem foldl_bytes {s : Str} (hready : q.ready = false) (hbuf : q.buf ≠ [])
    (hlim : q.count + s.length < q.limit) (hlf : LF ∉ s) :
    s.foldl absorb q =
      { q with buf := q.buf ++ s.filter (· != CR), count := q.count + s.length } := by
  induction s generalizing q with
  | nil => simp
  | cons p s ih =>
      simp only [List.mem_cons, not_or, List.length_cons] at hlf hlim
      have htake : q.absorb p =
          { q with buf := q.buf ++ [p].filter (· != CR), count := q.count + 1 } := by
        by_cases hcr : p = CR
        · subst hcr
          rw [absorb_cr hready (by omega)]
          simp
        · rw [absorb_eq_take hready (by omega), take, if_neg hcr, if_neg (Ne.symm hlf.1), store,
            if_neg hbuf, List.filter_cons_of_pos (by simpa using hcr), List.filter_nil]
      rw [List.foldl_cons, htake, ih]
      · simp only [List.append_assoc, ← List.filter_append, List.singleton_append,
          List.length_cons]
        congr 1
        omega
      · exact hready
      · simp [hbuf]
      · simp only
        omega
      · exact hlf.2

/-- Parsing a line does not look at the count. -/
theorem parseLine_with_count (line : Str) (k : ℤ) :
    ({ q with count := k } : HTTPHeadersParser).parseLine line =
      { q.parseLine line with count := k } := by
  unfold parseLine
  by_cases hnum : q.lineNum = 1
  · rw [if_pos hnum, if_pos hnum]
    rcases q.type with _ | _ <;> rfl
  · rw [if_neg hnum, if_neg hnum]
    rcases (IStream.ofStr line).extractStr [] with ⟨ss, key⟩
    rcases ss.getline [] with ⟨_, value⟩
    dsimp only
    split_ifs <;> rfl

theorem beginLine_with_count (c : UInt8) (k : ℤ) :
    ({ q with count := k } : HTTPHeadersParser).beginLine c =
      { q.beginLine c with count := k } := by
  unfold beginLine
  rw [parseLine_with_count]
  split_ifs <;> rfl

@[simp] theorem beginLine_ready (c : UInt8) : (q.beginLine c).ready = q.ready := by
  simp only [beginLine, apply_ite ready, parseLine_ready, ite_self]

@[simp] theorem beginLine_limit (c : UInt8) : (q.beginLine c).limit = q.limit := by
  simp only [beginLine, apply_ite limit, parseLine_limit, ite_self]

@[simp] theorem beginLine_buf (c : UInt8) : (q.beginLine c).buf = q.buf := by
  simp only [beginLine, apply_ite buf, parseLine_buf, ite_self]

@[simp] theorem parseLine_lineNum (line : Str) : (q.parseLine line).lineNum = q.lineNum := by
  unfold parseLine
  split <;> [split; skip] <;> simp only [apply_ite lineNum, ite_self]

@[simp] theorem beginLine_lineNum (c : UInt8) : (q.beginLine c).lineNum = q.lineNum := by
  simp only [beginLine, apply_ite lineNum, parseLine_lineNum, ite_self]

/-- The byte that begins a line. -/
theorem absorb_first (hready : q.ready = false) (hlim : q.count + 1 < q.limit)
    (hbuf : q.buf = []) {c : UInt8} (hcr : c ≠ CR) (hlf : c ≠ LF) :
    q.absorb c = { q.beginLine c with buf := [c], count := q.count + 1 } := by
  have hbuf' : (q.beginLine c).buf = [] := (beginLine_buf c).trans hbuf
  rw [absorb_eq_take hready hlim, take, if_neg hcr, if_neg hlf, store, if_pos hbuf,
    beginLine_with_count]
  simp only [hbuf', List.nil_append]

/-- **One line**, with the first of its bytes that is kept. -/
theorem foldl_bytesLine {raw s : Str} {c : UInt8} (hready : q.ready = false) (hbuf : q.buf = [])
    (hlim : q.count + (raw ++ [LF]).length < q.limit) (hlf : LF ∉ raw)
    (hkept : raw.filter (· != CR) = c :: s) :
    (raw ++ [LF]).foldl absorb q =
      { q.beginLine c with
        curLine := (q.beginLine c).curLine ++ c :: s
        buf := []
        count := q.count + (raw ++ [LF]).length
        lineNum := (q.beginLine c).lineNum + 1 } := by
  induction raw generalizing q with
  | nil => cases hkept
  | cons p raw ih =>
      simp only [List.mem_cons, not_or] at hlf
      simp only [List.cons_append, List.length_cons, List.length_append, List.length_nil] at hlim
      by_cases hcr : p = CR
      · -- a carriage return in front of the line
        subst hcr
        rw [List.filter_cons_of_neg (by simp)] at hkept
        have hroom : q.count + 1 + (raw ++ [LF]).length < q.limit := by
          rw [List.length_append, List.length_singleton]
          omega
        rw [List.cons_append, List.foldl_cons, absorb_cr hready (by omega),
          ih (by exact hready) (by exact hbuf) hroom hlf.2 hkept]
        simp only [beginLine_with_count, List.length_cons, List.length_append]
        congr 1
        push_cast
        omega
      · rw [List.filter_cons_of_pos (by simpa using hcr)] at hkept
        obtain ⟨rfl, rfl⟩ := List.cons.inj hkept
        have hPready : (q.beginLine p).ready = false := (beginLine_ready p).trans hready
        have hPlim : (q.beginLine p).limit = q.limit := beginLine_limit p
        rw [List.cons_append, List.foldl_cons,
          absorb_first hready (by omega) hbuf hcr (Ne.symm hlf.1)]
        generalize q.beginLine p = P at *
        have hrest : raw.foldl absorb { P with buf := [p], count := q.count + 1 } =
            { P with
              buf := p :: raw.filter (· != CR), count := q.count + 1 + raw.length } :=
          foldl_bytes hPready (by simp) (by simp only [hPlim]; omega) hlf.2
        have hend := absorb_lf (q := { P with
          buf := p :: raw.filter (· != CR), count := q.count + 1 + raw.length })
          hPready (by simp only [hPlim]; omega) (by simp)
        rw [List.foldl_append, hrest, List.foldl_cons, List.foldl_nil, hend]
        congr 1
        simp only [List.length_cons, List.length_append, List.length_nil]
        omega

/-- **The empty line**: what is in `curLine` stays there. -/
theorem foldl_emptyLine {raw : Str} (hready : q.ready = false) (hbuf : q.buf = [])
    (hlim : q.count + (raw ++ [LF]).length < q.limit) (hall : ∀ c ∈ raw, c = CR) :
    (raw ++ [LF]).foldl absorb q =
      { q with
        ready := true, count := q.count + (raw ++ [LF]).length, lineNum := q.lineNum + 1 } := by
  induction raw generalizing q with
  | nil => exact absorb_lf_empty hready hlim hbuf
  | cons p raw ih =>
      simp only [List.cons_append, List.length_cons, List.length_append, List.length_nil] at hlim
      obtain rfl : p = CR := hall p List.mem_cons_self
      rw [List.cons_append, List.foldl_cons, absorb_cr hready (by omega), ih (by exact hready)
        (by exact hbuf) (by simp only [List.length_append, List.length_singleton]; omega)
        fun c hc => hall c (List.mem_cons_of_mem _ hc)]
      congr 1
      simp only [List.length_cons]
      omega

end Bytes

/-! ## Below the limit -/

variable {lim : ℤ}

theorem view_fresh (tp : ParserType) (h : 0 < lim) : (fresh tp lim).view = fresh tp lim :=
  view_eq_self (by simp only [fresh]; omega)

theorem ready_foldl_absorb {q : HTTPHeadersParser} (h : q.ready = true) (data : List UInt8) :
    data.foldl absorb q = q :=
  Incremental.foldl_of_fixed (fun p => by rw [absorb, if_pos (Or.inl h)]) data

/-- Once ready, ready. -/
theorem ready_mono {q : HTTPHeadersParser} {pre full : List UInt8} (hp : pre <+: full)
    (h : (pre.foldl absorb q).ready = true) : (full.foldl absorb q).ready = true := by
  obtain ⟨rest, rfl⟩ := hp
  rw [List.foldl_append, ready_foldl_absorb h]
  exact h

theorem count_le (tp : ParserType) (lim : ℤ) (pre : List UInt8) :
    (pre.foldl absorb (fresh tp lim)).count ≤ pre.length ∧
      (pre.foldl absorb (fresh tp lim)).limit = lim := by
  induction pre using List.reverseRecOn with
  | nil => exact ⟨by simp [fresh], rfl⟩
  | append_singleton pre p ih =>
      rw [List.foldl_append, List.foldl_cons, List.foldl_nil, List.length_append, absorb]
      simp only [List.length_singleton]
      split_ifs
      · exact ⟨by omega, ih.2⟩
      · rw [take_count, take_limit]
        exact ⟨by omega, ih.2⟩

variable (lim) in
/-- Below the limit an empty line makes the parser ready. -/
theorem ready_of_endsEmptyLine (tp : ParserType) {pre : List UInt8} (h : EndsEmptyLine pre)
    (hlim : (pre.length : ℤ) < lim) : (pre.foldl absorb (fresh tp lim)).ready = true := by
  obtain ⟨line, rfl, hcr⟩ := h
  rw [List.length_append, List.length_singleton] at hlim
  have hview : (fresh tp lim).view = fresh tp lim := view_fresh tp (by omega)
  cases hready : (line.foldl absorb (fresh tp lim)).ready with
  | true => exact ready_mono (List.prefix_append _ _) hready
  | false =>
      obtain ⟨hcount, hlimit⟩ := count_le tp lim line
      rw [← hview] at hready hcount hlimit ⊢
      exact (ready_iff_endsEmptyLine tp lim line LF hready (by omega)).mpr ⟨line, rfl, hcr⟩

end HTTPHeadersParser

end Craplib
