import Mathlib.Logic.Relation
import Craplib.Http.Lines
import Craplib.Http.HeaderLines

/-!
# Carriage returns and folded lines

`write` drops every carriage return, and a line that begins with a space or a tab continues
the line before it.  A block may therefore be written in many ways (`Refolded`): with more
carriage returns, and with its lines folded in front of a space or a tab.  The two parsers
go through different states: they count the lines differently, and what one still has in
`buf` the other has moved to `curLine`.

`Alike` is what they keep in common, `Alike.absorb` says that every byte keeps it, and
`visible_feed_refolded` that in the end they look the same.
-/

namespace Craplib

/-- `block'` is `block` with a carriage return somewhere, or with a line feed in front of a
space or a tab that is on a line after the first, behind a byte of its line that is not a
carriage return. -/
inductive Insertion : List UInt8 → List UInt8 → Prop
  | cr (pre post : List UInt8) : Insertion (pre ++ post) (pre ++ CR :: post)
  | fold {pre : List UInt8} {b : UInt8} (post : List UInt8) (hlf : LF ∈ pre)
      (hblank : isBlank b = true) (hbegun : ∃ c ∈ pre.rtakeWhile (· != LF), c ≠ CR) :
      Insertion (pre ++ b :: post) (pre ++ LF :: b :: post)

/-- `block'` is `block` with any number of such insertions. -/
def Refolded (block block' : List UInt8) : Prop := Relation.ReflTransGen Insertion block block'

theorem Insertion.length_eq {block block' : List UInt8} (h : Insertion block block') :
    block'.length = block.length + 1 := by
  cases h with
  | cr pre post => simp only [List.length_append, List.length_cons, Nat.add_assoc]
  | fold post _ _ _ => simp only [List.length_append, List.length_cons, Nat.add_assoc]

namespace HTTPHeadersParser

variable {q q' : HTTPHeadersParser}

/-! ## What has been parsed -/

/-- The parser without the line it is in: what `parseLine` has stored. -/
def parsed (self : HTTPHeadersParser) : HTTPHeadersParser :=
  { self with count := 0, lineNum := 0, buf := [], curLine := [] }

/-- `parseLine` looks at what has been parsed, and at the number of the line only to tell
the start line. -/
theorem parsed_parseLine (self : HTTPHeadersParser) (line : Str) :
    (self.parseLine line).parsed =
      ({ self.parsed with
        lineNum := if self.lineNum = 1 then 1 else 2 }.parseLine line).parsed := by
  have htwo : (2 : ℤ) ≠ 1 := by decide
  unfold parseLine
  by_cases hone : self.lineNum = 1
  · simp only [hone, if_true]
    dsimp only [parsed]
    cases self.type <;> rfl
  · simp only [hone, if_false, htwo]
    dsimp only [parsed]
    split_ifs <;> rfl

theorem parseLine_congr (h : q.parsed = q'.parsed) (hnum : q.lineNum = 1 ↔ q'.lineNum = 1)
    (line : Str) : (q.parseLine line).parsed = (q'.parseLine line).parsed := by
  rw [parsed_parseLine q, parsed_parseLine q', h, if_congr hnum rfl rfl]

/-! ## Two spellings of one block -/

/-- The start line is behind: the parser is in a later line, or will be at the next one. -/
def PastStart (self : HTTPHeadersParser) : Prop :=
  2 ≤ self.lineNum ∨ self.lineNum = 1 ∧ self.buf ≠ []

/-- What two parsers keep in common whose bytes differ by carriage returns and folds: what
has been parsed, the logical line so far, and whether the physical line has begun.  The
numbers of the line may differ once the start line is behind, where they no longer count. -/
structure Alike (q q' : HTTPHeadersParser) : Prop where
  parsed : q.parsed = q'.parsed
  line : q.curLine ++ q.buf = q'.curLine ++ q'.buf
  begun : q.buf = [] ↔ q'.buf = []
  num : q.lineNum = q'.lineNum ∨ q.PastStart ∧ q'.PastStart

namespace Alike

theorem refl (q : HTTPHeadersParser) : Alike q q := ⟨rfl, rfl, Iff.rfl, Or.inl rfl⟩

theorem ready (h : Alike q q') : q.ready = q'.ready :=
  (congrArg HTTPHeadersParser.ready h.parsed :)

theorem visible (h : Alike q q') : q.visible = q'.visible :=
  (congrArg HTTPHeadersParser.visible h.parsed :)

/-- A carriage return is not seen. -/
theorem insertCr (q : HTTPHeadersParser) : Alike q (q.take CR) := by
  rw [take, if_pos rfl]
  exact ⟨rfl, rfl, Iff.rfl, Or.inl rfl⟩

/-- A line feed and the blank behind it are seen as the blank alone, inside a line that is
not the first. -/
theorem insertFold (hbuf : q.buf ≠ []) (hnum : 1 ≤ q.lineNum) {b : UInt8}
    (hblank : isBlank b = true) : Alike (q.take b) ((q.take LF).take b) := by
  have hb : b = SP ∨ b = HT := isBlank_iff.mp hblank
  have hcr : b ≠ CR := by rcases hb with rfl | rfl <;> decide
  have hlf : b ≠ LF := by rcases hb with rfl | rfl <;> decide
  have hone : q.take b = { q with count := q.count + 1, buf := q.buf ++ [b] } := by
    rw [take, if_neg hcr, if_neg hlf, store, if_neg hbuf]
  have hfold : q.take LF = { q with
      count := q.count + 1, lineNum := q.lineNum + 1,
      curLine := q.curLine ++ q.buf, buf := [] } := by
    rw [take, if_neg (by decide), if_pos rfl, if_neg hbuf, endLine]
  have htwo : (q.take LF).take b = { q with
      count := q.count + 1 + 1, lineNum := q.lineNum + 1, curLine := q.curLine ++ q.buf
      buf := [b] } := by
    rw [hfold, take, if_neg hcr, if_neg hlf, store, if_pos rfl, beginLine, if_pos hb,
      List.nil_append]
  rw [hone, htwo]
  refine ⟨rfl, (List.append_assoc _ _ _).symm, by simp, Or.inr ⟨?_, Or.inl ?_⟩⟩
  · rcases Int.lt_or_eq_of_le hnum with h | h
    · exact Or.inl (Int.add_one_le_of_lt h)
    · exact Or.inr ⟨h.symm, by simp⟩
  · simpa using Int.add_le_add_right hnum 1

/-- A byte that begins a line. -/
theorem beginLine (h : Alike q q') (hbuf : q.buf = []) (p : UInt8) :
    (q.beginLine p).parsed = (q'.beginLine p).parsed ∧
      (q.beginLine p).curLine = (q'.beginLine p).curLine := by
  have hbuf' : q'.buf = [] := h.begun.mp hbuf
  have hline : q.curLine = q'.curLine := by simpa [hbuf, hbuf'] using h.line
  have hnum : q.lineNum = q'.lineNum ∨ 2 ≤ q.lineNum ∧ 2 ≤ q'.lineNum := by
    simpa [PastStart, hbuf, hbuf'] using h.num
  have hpos : 0 < q.lineNum ↔ 0 < q'.lineNum := by omega
  unfold HTTPHeadersParser.beginLine
  by_cases hblank : p = SP ∨ p = HT
  · rw [if_pos hblank, if_pos hblank]
    exact ⟨h.parsed, hline⟩
  · rw [if_neg hblank, if_neg hblank]
    by_cases hlater : 0 < q.lineNum
    · rw [if_pos hlater, if_pos (hpos.mp hlater), hline]
      exact ⟨parseLine_congr h.parsed (by omega) q'.curLine, rfl⟩
    · rw [if_neg hlater, if_neg (mt hpos.mpr hlater)]
      exact ⟨h.parsed, hline⟩

/-- The end of both physical lines, and of both blocks when they are empty. -/
theorem lineFeed (h : Alike q q') : Alike (q.take LF) (q'.take LF) := by
  have hnum : q.lineNum + 1 = q'.lineNum + 1 ∨ 2 ≤ q.lineNum + 1 ∧ 2 ≤ q'.lineNum + 1 := by
    rcases h.num with hnum | ⟨hpast | hpast, hpast' | hpast'⟩ <;> omega
  have hcr : ¬ LF = CR := by decide
  unfold HTTPHeadersParser.take
  rw [if_neg hcr, if_neg hcr, if_pos rfl, if_pos rfl]
  by_cases hbuf : q.buf = []
  · have hbuf' : q'.buf = [] := h.begun.mp hbuf
    have hline : q.curLine = q'.curLine := by simpa [hbuf, hbuf'] using h.line
    have hparsed := congrArg (fun p : HTTPHeadersParser => { p with ready := true }) h.parsed
    rw [if_pos hbuf, if_pos hbuf']
    exact ⟨hparsed, by simpa using hline, Iff.rfl, by simpa [PastStart] using hnum⟩
  · rw [if_neg hbuf, if_neg (mt h.begun.mpr hbuf)]
    exact ⟨h.parsed, by simpa [endLine] using h.line, Iff.rfl,
      by simpa [PastStart, endLine] using hnum⟩

/-- A byte that is stored. -/
theorem store (h : Alike q q') (p : UInt8) : Alike (q.store p) (q'.store p) := by
  unfold HTTPHeadersParser.store
  by_cases hbuf : q.buf = []
  · -- the first byte of both physical lines
    have hbuf' : q'.buf = [] := h.begun.mp hbuf
    obtain ⟨hparsed, hline⟩ := h.beginLine hbuf p
    rw [if_pos hbuf, if_pos hbuf']
    refine ⟨hparsed, by simp [hline, hbuf, hbuf'], by simp, ?_⟩
    have hnum : q.lineNum = q'.lineNum ∨ 2 ≤ q.lineNum ∧ 2 ≤ q'.lineNum := by
      simpa [PastStart, hbuf, hbuf'] using h.num
    simpa [PastStart] using hnum.imp_right fun hpast => ⟨Or.inl hpast.1, Or.inl hpast.2⟩
  · rw [if_neg hbuf, if_neg (mt h.begun.mpr hbuf)]
    refine ⟨h.parsed, by simp only [← List.append_assoc, h.line], by simp, ?_⟩
    exact h.num.imp_right fun hpast => ⟨hpast.1.imp_right fun hone => ⟨hone.1, by simp⟩,
      hpast.2.imp_right fun hone => ⟨hone.1, by simp⟩⟩

/-- **Every byte keeps two parsers alike.** -/
theorem take (h : Alike q q') (p : UInt8) : Alike (q.take p) (q'.take p) := by
  by_cases hlf : p = LF
  · rw [hlf]
    exact h.lineFeed
  · have hcount : Alike { q with count := q.count + 1 } { q' with count := q'.count + 1 } :=
      ⟨h.parsed, h.line, h.begun, h.num⟩
    unfold HTTPHeadersParser.take
    by_cases hcr : p = CR
    · rw [if_pos hcr, if_pos hcr]
      exact hcount
    · rw [if_neg hcr, if_neg hcr, if_neg hlf, if_neg hlf]
      exact hcount.store p

/-- Below the limit, any bytes keep two parsers alike. -/
theorem foldl_absorb {bytes : List UInt8} (h : Alike q q')
    (hlim : q.count + bytes.length < q.limit) (hlim' : q'.count + bytes.length < q'.limit) :
    Alike (bytes.foldl absorb q) (bytes.foldl absorb q') := by
  induction bytes generalizing q q' with
  | nil => exact h
  | cons p bytes ih =>
      simp only [List.length_cons] at hlim hlim'
      simp only [List.foldl_cons]
      cases hready : q.ready with
      | true =>
          rw [absorb, if_pos (Or.inl hready), absorb, if_pos (Or.inl (h.ready ▸ hready))]
          exact ih h (by omega) (by omega)
      | false =>
          rw [absorb_eq_take hready (by omega), absorb_eq_take (h.ready ▸ hready) (by omega)]
          exact ih (h.take p) (by rw [take_count, take_limit]; omega)
            (by rw [take_count, take_limit]; omega)

end Alike

/-! ## Blocks -/

variable (tp : ParserType) {lim : ℤ}

theorem take_lineNum (p : UInt8) :
    (q.take p).lineNum = if p = LF then q.lineNum + 1 else q.lineNum := by
  have hcr : ¬ LF = CR := by decide
  unfold take store
  by_cases hlf : p = LF
  · simp only [hlf, hcr, if_true, if_false, endLine, apply_ite lineNum, ite_self]
  · simp only [hlf, if_false, apply_ite lineNum, beginLine_lineNum, ite_self]

/-- Behind a line feed the first line is over. -/
theorem lineNum_pos {pre : List UInt8} (hlim : (pre.length : ℤ) < lim)
    (hready : (pre.foldl absorb (fresh tp lim)).ready = false) :
    0 ≤ (pre.foldl absorb (fresh tp lim)).lineNum ∧
      (LF ∈ pre → 1 ≤ (pre.foldl absorb (fresh tp lim)).lineNum) := by
  induction pre using List.reverseRecOn with
  | nil => exact ⟨Int.le_refl 0, fun h => absurd h List.not_mem_nil⟩
  | append_singleton pre p ih =>
      rw [List.length_append, List.length_singleton] at hlim
      have hopen : (pre.foldl absorb (fresh tp lim)).ready = false := by
        rw [Bool.eq_false_iff] at hready ⊢
        exact mt (ready_mono (List.prefix_append pre [p])) hready
      obtain ⟨hzero, hone⟩ := ih (by omega) hopen
      obtain ⟨hcount, hlimit⟩ := count_le tp lim pre
      rw [List.foldl_append, List.foldl_cons, List.foldl_nil,
        absorb_eq_take hopen (by omega), take_lineNum]
      by_cases hlf : p = LF
      · rw [if_pos hlf]
        exact ⟨by omega, fun _ => by omega⟩
      · rw [if_neg hlf]
        refine ⟨hzero, fun h => hone ?_⟩
        simpa [Ne.symm hlf] using h

theorem Alike.append {pre pre' post : List UInt8}
    (h : Alike (pre.foldl absorb (fresh tp lim)) (pre'.foldl absorb (fresh tp lim)))
    (hlim : ((pre ++ post).length : ℤ) < lim) (hlim' : ((pre' ++ post).length : ℤ) < lim) :
    Alike ((pre ++ post).foldl absorb (fresh tp lim))
      ((pre' ++ post).foldl absorb (fresh tp lim)) := by
  obtain ⟨hcount, hlimit⟩ := count_le tp lim pre
  obtain ⟨hcount', hlimit'⟩ := count_le tp lim pre'
  rw [List.length_append] at hlim hlim'
  rw [List.foldl_append, List.foldl_append]
  exact h.foldl_absorb (by omega) (by omega)

theorem alike_cr {pre : List UInt8} (hlim : (pre.length : ℤ) + 1 < lim) :
    Alike (pre.foldl absorb (fresh tp lim)) ((pre ++ [CR]).foldl absorb (fresh tp lim)) := by
  obtain ⟨hcount, hlimit⟩ := count_le tp lim pre
  rw [List.foldl_append]
  cases hready : (pre.foldl absorb (fresh tp lim)).ready with
  | true =>
      rw [ready_foldl_absorb hready]
      exact Alike.refl _
  | false =>
      rw [List.foldl_cons, List.foldl_nil, absorb_eq_take hready (by omega)]
      exact Alike.insertCr _

theorem alike_fold {pre : List UInt8} {b : UInt8} (hlim : (pre.length : ℤ) + 2 < lim)
    (hlf : LF ∈ pre) (hblank : isBlank b = true)
    (hbegun : ∃ c ∈ pre.rtakeWhile (· != LF), c ≠ CR) :
    Alike ((pre ++ [b]).foldl absorb (fresh tp lim))
      ((pre ++ [LF, b]).foldl absorb (fresh tp lim)) := by
  obtain ⟨hcount, hlimit⟩ := count_le tp lim pre
  rw [List.foldl_append, List.foldl_append]
  cases hready : (pre.foldl absorb (fresh tp lim)).ready with
  | true =>
      rw [ready_foldl_absorb hready, ready_foldl_absorb hready]
      exact Alike.refl _
  | false =>
      -- the byte that is not a carriage return is still in `buf`
      have hbuf : (pre.foldl absorb (fresh tp lim)).buf ≠ [] := by
        have hkept := buf_eq tp lim pre
        rw [view_fresh tp (by omega)] at hkept
        rw [hkept hready (by omega), ne_eq, List.filter_eq_nil_iff]
        simpa using hbegun
      have hnum := (lineNum_pos tp (by omega) hready).2 hlf
      generalize pre.foldl absorb (fresh tp lim) = q at *
      have hopen : (q.take LF).ready = false := by
        rw [take_ready, if_neg fun h => hbuf h.2, hready]
      simp only [List.foldl_cons, List.foldl_nil]
      rw [absorb_eq_take hready (by omega), absorb_eq_take hready (by omega),
        absorb_eq_take hopen (by rw [take_count, take_limit]; omega)]
      exact Alike.insertFold hbuf hnum hblank

/-- **One insertion** keeps the parsers alike. -/
theorem alike_insertion {block block' : List UInt8} (h : Insertion block block')
    (hlim : (block'.length : ℤ) < lim) :
    Alike (block.foldl absorb (fresh tp lim)) (block'.foldl absorb (fresh tp lim)) := by
  cases h with
  | cr pre post =>
      rw [List.append_cons] at hlim ⊢
      have hroom := hlim
      simp only [List.length_append, List.length_singleton] at hroom
      exact (alike_cr tp (by omega)).append tp (by rw [List.length_append]; omega) hlim
  | @fold pre b post hlf hblank hbegun =>
      have hone : pre ++ b :: post = pre ++ [b] ++ post := List.append_cons pre b post
      have htwo : pre ++ LF :: b :: post = pre ++ [LF, b] ++ post := by simp
      rw [htwo] at hlim
      rw [hone, htwo]
      have hroom := hlim
      simp only [List.length_append, List.length_cons, List.length_nil] at hroom
      refine (alike_fold tp (by omega) hlf hblank hbegun).append tp ?_ hlim
      simp only [List.length_append, List.length_singleton]
      omega

theorem visible_foldl_refolded {block block' : List UInt8} (h : Refolded block block')
    (hlim : (block'.length : ℤ) < lim) :
    (block'.foldl absorb (fresh tp lim)).visible =
      (block.foldl absorb (fresh tp lim)).visible := by
  induction h with
  | refl => rfl
  | tail _ hlast ih =>
      have hlength := hlast.length_eq
      exact (alike_insertion tp hlast hlim).visible.symm.trans (ih (by omega))

/-- **Carriage returns and folds are transparent.**  A parser that is fed a block, in any
chunks, looks in the end as one that is fed the block with carriage returns and folds
inserted, when the longer of the two stays under the limit. -/
theorem visible_feed_refolded (tp : ParserType) (lim : ℤ) (chunks chunks' : List (List UInt8))
    (h : Refolded chunks.flatten chunks'.flatten) (hlim : (chunks'.flatten.length : ℤ) < lim) :
    ((fresh tp lim).feed chunks').1.visible = ((fresh tp lim).feed chunks).1.visible := by
  rw [← visible_view, view_feed, ← visible_view ((fresh tp lim).feed chunks).1, view_feed,
    view_fresh tp (by omega)]
  exact visible_foldl_refolded tp h hlim

/-- `G /\nA: b c\n\n`, and the same with carriage returns and with the header folded in front
of its second word. -/
theorem visible_feed_refolded_request :
    ((fresh .REQUEST 4096).feed
      [[71, 32, 47, 13, 10, 65, 58, 32, 98, 10], [32, 99, 10, 13, 10]]).1.visible =
    ((fresh .REQUEST 4096).feed [[71, 32, 47, 10, 65, 58, 32, 98, 32, 99, 10, 10]]).1.visible :=
  visible_feed_refolded .REQUEST 4096 _ _
    (((Relation.ReflTransGen.refl.tail
      (Insertion.cr [71, 32, 47] [10, 65, 58, 32, 98, 32, 99, 10, 10])).tail
      (@Insertion.fold [71, 32, 47, 13, 10, 65, 58, 32, 98] 32 [99, 10, 10]
        (by decide) (by decide) ⟨98, by decide, by decide⟩)).tail
      (Insertion.cr [71, 32, 47, 13, 10, 65, 58, 32, 98, 10, 32, 99, 10] [10])) (by decide)

end HTTPHeadersParser

end Craplib
