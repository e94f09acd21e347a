import Craplib.Http.Lines
import Craplib.Http.HeaderLines
import Craplib.Http.HeadersWriter

/-!
# What becomes of the header lines of a block

A line that begins with a space or a tab continues the line before it.  `parseLine` sees
the lines of a block with their continuations, all but the last one (`headers_textOf`); the
start line is parsed as a header line when the line behind it continues it.

`header_lines_iff` says for every line of every block whether the parser adds what the
grammar of a header line says.
-/

namespace Craplib

/-! ## The lines of a block -/

/-- A line without its carriage returns. -/
def kept (raw : Str) : Str := raw.filter (· != CR)

/-- The line continues the one before it. -/
def continues (line : Str) : Bool := line.head?.any isBlank

/-- The lines of a block before its empty line, without their carriage returns. -/
def physicalLines (block : List UInt8) : List Str :=
  ((kept block).splitOn LF).takeWhile (!·.isEmpty)

/-- The line `cur`, with the lines that continue it, and the lines that follow. -/
def joinLines (cur : Str) : List Str → List Str
  | [] => [cur]
  | line :: rest =>
    if continues line then joinLines (cur ++ line) rest else cur :: joinLines line rest

/-- The lines of a block with their continuations. -/
def logicalLines (block : List UInt8) : List Str :=
  match physicalLines block with
  | [] => []
  | start :: rest => joinLines start rest

/-- The header lines of a block. -/
def headerLines (block : List UInt8) : List Str := (logicalLines block).tail

/-- The headers when the header lines begin: a start line that is continued is parsed as a
header line. -/
def startHeaders (block : List UInt8) : HeaderMap :=
  match logicalLines block with
  | start :: _ :: _ =>
    if (physicalLines block)[1]?.any continues then HTTPHeadersParser.addLine .empty start
    else .empty
  | _ => .empty

theorem joinLines_ne_nil (cur : Str) (rest : List Str) : joinLines cur rest ≠ [] := by
  induction rest generalizing cur with
  | nil => exact List.cons_ne_nil _ _
  | cons line rest ih =>
      unfold joinLines
      split
      · exact ih _
      · exact List.cons_ne_nil _ _

theorem not_mem_joinLines {cur : Str} {rest : List Str} (hcur : LF ∉ cur)
    (hrest : ∀ line ∈ rest, LF ∉ line) : ∀ line ∈ joinLines cur rest, LF ∉ line := by
  induction rest generalizing cur with
  | nil => simpa [joinLines] using hcur
  | cons line rest ih =>
      obtain ⟨hline, hrest⟩ := List.forall_mem_cons.mp hrest
      unfold joinLines
      split
      · refine ih ?_ hrest
        rw [List.mem_append, not_or]
        exact ⟨hcur, hline⟩
      · exact List.forall_mem_cons.mpr ⟨hcur, ih hline hrest⟩

theorem not_mem_kept {raw : Str} (hlf : LF ∉ raw) : LF ∉ kept raw :=
  fun hmem => hlf (List.mem_of_mem_filter hmem)

/-! ### Where a block is cut -/

/-- The text of lines. -/
def textOf (raws : List Str) : List UInt8 := raws.flatMap (· ++ [LF])

theorem textOf_cons (raw : Str) (raws : List Str) :
    textOf (raw :: raws) = (raw ++ [LF]) ++ textOf raws := rfl

/-- Lines that are not empty. -/
def FullLines (raws : List Str) : Prop := ∀ raw ∈ raws, LF ∉ raw ∧ kept raw ≠ []

theorem kept_eq_nil {raw : Str} : kept raw = [] ↔ ∀ c ∈ raw, c = CR := by
  simp [kept, List.filter_eq_nil_iff]

/-- What a line has behind its last line feed is not touched by what stands before one. -/
theorem rtakeWhile_append_lf (raw line : List UInt8) :
    (raw ++ LF :: line).rtakeWhile (· != LF) = line.rtakeWhile (· != LF) := by
  induction line using List.reverseRecOn with
  | nil => simp
  | append_singleton line c ih =>
      rw [← List.cons_append, ← List.append_assoc, List.rtakeWhile_concat,
        List.rtakeWhile_concat, ih]

theorem rtakeWhile_lf {raw : Str} (hlf : LF ∉ raw) : raw.rtakeWhile (· != LF) = raw := by
  rw [List.rtakeWhile_eq_self_iff]
  intro c hc
  rw [bne_iff_ne]
  rintro rfl
  exact hlf hc

/-- An empty line behind other lines. -/
theorem endsEmptyLine_append {raw pre : List UInt8} (hpre : pre ≠ []) :
    EndsEmptyLine (raw ++ LF :: pre) ↔ EndsEmptyLine pre := by
  obtain ⟨line, p, rfl⟩ := (List.eq_nil_or_concat' pre).resolve_left hpre
  unfold EndsEmptyLine
  rw [← List.cons_append, ← List.append_assoc]
  constructor
  · rintro ⟨line', heq, hcr⟩
    obtain ⟨rfl, hp⟩ := List.append_inj' heq rfl
    rw [rtakeWhile_append_lf] at hcr
    exact ⟨line, by rw [hp], hcr⟩
  · rintro ⟨line', heq, hcr⟩
    obtain ⟨rfl, hp⟩ := List.append_inj' heq rfl
    exact ⟨raw ++ LF :: line, by rw [hp], by rwa [rtakeWhile_append_lf]⟩

/-- One line ends a block when it is empty. -/
theorem endsEmptyLine_line {raw : Str} (hlf : LF ∉ raw) :
    EndsEmptyLine (raw ++ [LF]) ↔ kept raw = [] := by
  rw [kept_eq_nil]
  unfold EndsEmptyLine
  constructor
  · rintro ⟨line, heq, hcr⟩
    obtain ⟨rfl, -⟩ := List.append_inj' heq rfl
    rwa [rtakeWhile_lf hlf] at hcr
  · intro hcr
    exact ⟨raw, rfl, by rwa [rtakeWhile_lf hlf]⟩

/-- **A block is lines, none of them empty, and an empty line.** -/
theorem exists_lines {block : List UInt8} (h : FirstEmptyLine block) :
    ∃ raws last, FullLines raws ∧ (∀ c ∈ last, c = CR) ∧
      block = textOf raws ++ (last ++ [LF]) := by
  induction hlen : block.length using Nat.strong_induction_on generalizing block with
  | _ n ih =>
    have hmem : LF ∈ block := by
      obtain ⟨line, rfl, -⟩ := h.1
      simp
    obtain ⟨raw, rest, rfl, hlf⟩ := List.eq_append_cons_of_mem hmem
    by_cases hempty : kept raw = []
    · have heq := h.2 (raw ++ [LF]) ⟨rest, by simp⟩ ((endsEmptyLine_line hlf).mpr hempty)
      exact ⟨[], raw, by simp [FullLines], kept_eq_nil.mp hempty, heq.symm⟩
    · have hrest : rest ≠ [] := by
        rintro rfl
        exact hempty ((endsEmptyLine_line hlf).mp h.1)
      have hfirst : FirstEmptyLine rest := by
        refine ⟨(endsEmptyLine_append hrest).mp h.1, fun p hp hend => ?_⟩
        have hne : p ≠ [] := by
          rintro rfl
          obtain ⟨line, hnil, -⟩ := hend
          simp at hnil
        obtain ⟨tail, rfl⟩ := hp
        have hwhole := h.2 (raw ++ LF :: p) ⟨tail, by simp⟩ ((endsEmptyLine_append hne).mpr hend)
        simpa using hwhole
      obtain ⟨raws, last, hraws, hlast, htext⟩ := ih rest.length
        (by rw [← hlen, List.length_append, List.length_cons]; omega) hfirst rfl
      refine ⟨raw :: raws, last, List.forall_mem_cons.mpr ⟨⟨hlf, hempty⟩, hraws⟩, hlast, ?_⟩
      rw [htext]
      simp [textOf]

/-- The lines of a block, found again. -/
theorem physicalLines_eq {raws : List Str} {last : Str} (hraws : FullLines raws)
    (hlast : ∀ c ∈ last, c = CR) :
    physicalLines (textOf raws ++ (last ++ [LF])) = raws.map kept := by
  have hsplit : (kept (textOf raws ++ (last ++ [LF]))).splitOn LF = raws.map kept ++ [[], []] := by
    have hlf : (LF != CR) = true := by decide
    induction raws with
    | nil =>
        have hempty : last.filter (· != CR) = [] := kept_eq_nil.mpr hlast
        simp [textOf, kept, hempty, hlf, List.splitOn_cons_eq_if_modifyHead]
    | cons raw raws ih =>
        obtain ⟨hraw, hraws⟩ := List.forall_mem_cons.mp hraws
        have htext : kept (textOf (raw :: raws) ++ (last ++ [LF])) =
            kept raw ++ LF :: kept (textOf raws ++ (last ++ [LF])) := by
          simp [textOf, kept, hlf]
        rw [htext, List.splitOn_append_cons_self_of_not_mem (not_mem_kept hraw.1), ih hraws]
        rfl
  unfold physicalLines
  rw [hsplit, List.takeWhile_append_of_pos]
  · simp
  · intro line hline
    obtain ⟨raw, hraw, rfl⟩ := List.mem_map.mp hline
    simpa using (hraws raw hraw).2

namespace HTTPHeadersParser

/-! ## The parser between two lines -/

/-- The parser is between two lines, and `n` more bytes leave it below its limit. -/
structure Between (q : HTTPHeadersParser) (n : ℕ) : Prop where
  ready : q.ready = false
  buf : q.buf = []
  room : q.count + n < q.limit

variable {q : HTTPHeadersParser}

/-- One line: what is open and what has been parsed behind it. -/
theorem Between.line {raw : Str} {n : ℕ} (h : q.Between ((raw ++ [LF]).length + n))
    (hlf : LF ∉ raw) (hkept : kept raw ≠ []) :
    ((raw ++ [LF]).foldl absorb q).Between n ∧
      ((raw ++ [LF]).foldl absorb q).lineNum = q.lineNum + 1 ∧
      ((raw ++ [LF]).foldl absorb q).curLine =
        (if continues (kept raw) ∨ ¬ 0 < q.lineNum then q.curLine else []) ++ kept raw ∧
      ((raw ++ [LF]).foldl absorb q).headers =
        if continues (kept raw) ∨ ¬ 0 < q.lineNum then q.headers
        else (q.parseLine q.curLine).headers := by
  obtain ⟨c, s, hcons⟩ := List.exists_cons_of_ne_nil hkept
  have hroom := h.room
  have hfold := foldl_bytesLine h.ready h.buf (by omega) hlf hcons
  have hblank : continues (c :: s) = true ↔ c = SP ∨ c = HT := isBlank_iff
  rw [hfold, hcons]
  refine ⟨⟨by simpa using h.ready, rfl, ?_⟩, by simp, ?_, ?_⟩
  · simp only [beginLine_limit]
    omega
  · simp only [hblank]
    unfold beginLine
    split_ifs <;> simp_all
  · simp only [hblank]
    unfold beginLine
    split_ifs <;> simp_all

/-- **A line that continues** the one that is open; the first line continues nothing. -/
theorem Between.continued {raw : Str} {n : ℕ} (h : q.Between ((raw ++ [LF]).length + n))
    (hraw : LF ∉ raw ∧ kept raw ≠ []) (hcont : continues (kept raw) = true ∨ ¬ 0 < q.lineNum) :
    ((raw ++ [LF]).foldl absorb q).Between n ∧
      ((raw ++ [LF]).foldl absorb q).lineNum = q.lineNum + 1 ∧
      ((raw ++ [LF]).foldl absorb q).curLine = q.curLine ++ kept raw ∧
      ((raw ++ [LF]).foldl absorb q).headers = q.headers := by
  have hline := h.line hraw.1 hraw.2
  rwa [if_pos hcont, if_pos hcont] at hline

/-- **A line that begins**: the one that was open is parsed, and is a header line unless it
was the first. -/
theorem Between.begun {raw : Str} {n : ℕ} (h : q.Between ((raw ++ [LF]).length + n))
    (hraw : LF ∉ raw ∧ kept raw ≠ []) (hcont : continues (kept raw) = false)
    (hnum : 0 < q.lineNum) :
    ((raw ++ [LF]).foldl absorb q).Between n ∧
      ((raw ++ [LF]).foldl absorb q).lineNum = q.lineNum + 1 ∧
      ((raw ++ [LF]).foldl absorb q).curLine = kept raw ∧
      ((raw ++ [LF]).foldl absorb q).headers =
        if q.lineNum = 1 then q.headers else addLine q.headers q.curLine := by
  have hbegin : ¬ (continues (kept raw) = true ∨ ¬ 0 < q.lineNum) := by simp [hcont, hnum]
  have hline := h.line hraw.1 hraw.2
  rwa [if_neg hbegin, if_neg hbegin, headers_parseLine] at hline

/-- **Header lines**: from the third line of a block on every line that another one follows
is a header line. -/
theorem Between.lines {raws : List Str} {n : ℕ} (h : q.Between ((textOf raws).length + n))
    (hnum : 2 ≤ q.lineNum) (hraws : FullLines raws) :
    ((textOf raws).foldl absorb q).Between n ∧
      ((textOf raws).foldl absorb q).headers =
        (joinLines q.curLine (raws.map kept)).dropLast.foldl addLine q.headers := by
  induction raws generalizing q with
  | nil => exact ⟨by simpa [textOf] using h, rfl⟩
  | cons raw raws ih =>
      obtain ⟨hraw, hraws⟩ := List.forall_mem_cons.mp hraws
      rw [textOf_cons, List.length_append, Nat.add_assoc] at h
      rw [textOf_cons, List.foldl_append, List.map_cons, joinLines]
      cases hcont : continues (kept raw) with
      | true =>
          obtain ⟨hnext, hline, hcur, hheaders⟩ := h.continued hraw (Or.inl hcont)
          obtain ⟨hbetween, hrest⟩ := ih hnext (by omega) hraws
          rw [hcur, hheaders] at hrest
          exact ⟨hbetween, hrest⟩
      | false =>
          obtain ⟨hnext, hline, hcur, hheaders⟩ := h.begun hraw hcont (by omega)
          obtain ⟨hbetween, hrest⟩ := ih hnext (by omega) hraws
          have hsecond : ¬ q.lineNum = 1 := by omega
          rw [hcur, hheaders, if_neg hsecond] at hrest
          refine ⟨hbetween, hrest.trans ?_⟩
          rw [if_neg Bool.false_ne_true, List.dropLast_cons_of_ne_nil (joinLines_ne_nil _ _),
            List.foldl_cons]

/-- The first line. -/
theorem between_start (tp : ParserType) {lim : ℤ} {start : Str} {n : ℕ}
    (hstart : LF ∉ start ∧ kept start ≠ [])
    (hlim : (((start ++ [LF]).length + n : ℕ) : ℤ) < lim) :
    ((start ++ [LF]).foldl absorb (fresh tp lim)).Between n ∧
      ((start ++ [LF]).foldl absorb (fresh tp lim)).lineNum = 1 ∧
      ((start ++ [LF]).foldl absorb (fresh tp lim)).curLine = kept start ∧
      ((start ++ [LF]).foldl absorb (fresh tp lim)).headers = .empty := by
  have hfresh : (fresh tp lim).Between ((start ++ [LF]).length + n) :=
    ⟨rfl, rfl, by simpa [fresh] using hlim⟩
  exact hfresh.continued hstart (Or.inr (Int.lt_irrefl 0))

/-- **The lines of a block**: the header lines are parsed, all but the last one. -/
theorem headers_textOf (tp : ParserType) {lim : ℤ} {raws : List Str} {block : List UInt8} {n : ℕ}
    (hraws : FullLines raws) (hblock : physicalLines block = raws.map kept)
    (hlim : (((textOf raws).length + n : ℕ) : ℤ) < lim) :
    ((textOf raws).foldl absorb (fresh tp lim)).Between n ∧
      ((textOf raws).foldl absorb (fresh tp lim)).headers =
        (headerLines block).dropLast.foldl addLine (startHeaders block) := by
  unfold headerLines startHeaders logicalLines
  rw [hblock]
  cases raws with
  | nil => exact ⟨⟨rfl, rfl, by simpa [textOf, fresh] using hlim⟩, rfl⟩
  | cons start raws =>
      obtain ⟨hstart, hraws⟩ := List.forall_mem_cons.mp hraws
      rw [textOf_cons, List.length_append, Nat.add_assoc] at hlim
      obtain ⟨hfirst, hone, hcur, hheaders⟩ := between_start tp hstart hlim
      rw [textOf_cons, List.foldl_append]
      generalize (start ++ [LF]).foldl absorb (fresh tp lim) = q at *
      cases raws with
      | nil => exact ⟨by simpa [textOf] using hfirst, hheaders⟩
      | cons second raws =>
          obtain ⟨hsecond, hraws⟩ := List.forall_mem_cons.mp hraws
          rw [textOf_cons, List.length_append, Nat.add_assoc] at hfirst
          rw [textOf_cons, List.foldl_append]
          simp only [List.map_cons, joinLines]
          cases hcont : continues (kept second) with
          | true =>
              -- the start line is continued
              obtain ⟨hnext, hline, hcur', hheaders'⟩ := hfirst.continued hsecond (Or.inl hcont)
              obtain ⟨hbetween, hrest⟩ := hnext.lines (by omega) hraws
              rw [hcur', hheaders', hcur, hheaders] at hrest
              refine ⟨hbetween, hrest.trans ?_⟩
              obtain ⟨line, lines, hlines⟩ := List.exists_cons_of_ne_nil
                (joinLines_ne_nil (kept start ++ kept second) (raws.map kept))
              rw [hlines]
              cases lines with
              | nil => rfl
              | cons header lines => simp [hcont]
          | false =>
              obtain ⟨hnext, hline, hcur', hheaders'⟩ := hfirst.begun hsecond hcont (by omega)
              obtain ⟨hbetween, hrest⟩ := hnext.lines (by omega) hraws
              rw [hcur', hheaders', if_pos hone, hheaders] at hrest
              refine ⟨hbetween, hrest.trans ?_⟩
              obtain ⟨line, lines, hlines⟩ := List.exists_cons_of_ne_nil
                (joinLines_ne_nil (kept second) (raws.map kept))
              simp [hlines, hcont]

/-! ## Header lines and their grammar -/

/-- The line adds what the grammar says: its entry, unless the name is there, and nothing
when it has not the form. -/
def Faithful (headers : HeaderMap) (line : Str) : Prop :=
  addLine headers line = headers.add (grammarEntry line)

instance (headers : HeaderMap) (line : Str) : Decidable (Faithful headers line) :=
  inferInstanceAs (Decidable (_ = _))

/-- Nothing is new: there is nothing behind the first word, or the word without its last
byte is a name that is there; and the name of the line, if it has one, is there. -/
def Shadowed (headers : HeaderMap) (line : Str) : Prop :=
  (behindWord line = [] ∨ headers.Has (firstWord line).dropLast) ∧
    ∀ e, grammarEntry line = some e → headers.Has e.1

theorem faithful_iff {headers : HeaderMap} {line : Str} (hlf : LF ∉ line) :
    Faithful headers line ↔ Regular line ∨ Shadowed headers line := by
  have hidle : headers.Idle (lineEntry line) ↔
      (behindWord line = [] ∨ headers.Has (firstWord line).dropLast) := by
    unfold SortedMap.Idle lineEntry
    by_cases hnil : behindWord line = [] <;> simp [hnil]
  unfold Faithful Shadowed
  rw [addLine_eq headers hlf, SortedMap.add_eq_add_iff, lineEntry_eq_iff, hidle]
  exact Iff.rfl

/-- **The header lines of a block and their grammar.**  However the block arrives: the parser
is ready, its headers are those of the header lines that another one follows, and each of
these adds what the grammar says of it exactly when one space or tab, and no more, is behind
its colon, or it has not the form and there is nothing behind its first word, or nothing in
it is new. -/
theorem header_lines_iff (tp : ParserType) {lim : ℤ} {chunks : List (List UInt8)}
    {block rest : List UInt8} (hblock : FirstEmptyLine block) (hlim : (block.length : ℤ) < lim)
    (hchunks : chunks.flatten = block ++ rest) :
    ((fresh tp lim).feed chunks).1.ready = true ∧
    ((fresh tp lim).feed chunks).1.headers =
      (headerLines block).dropLast.foldl addLine (startHeaders block) ∧
    ∀ pre line, pre ++ [line] <+: (headerLines block).dropLast →
      (Faithful (pre.foldl addLine (startHeaders block)) line ↔
        Regular line ∨ Shadowed (pre.foldl addLine (startHeaders block)) line) := by
  obtain ⟨raws, last, hraws, hlast, htext⟩ := exists_lines hblock
  have hphysical : physicalLines block = raws.map kept := by
    rw [htext]
    exact physicalLines_eq hraws hlast
  have hlen : block.length = (textOf raws).length + (last ++ [LF]).length := by
    rw [htext, List.length_append]
  rw [hlen] at hlim
  obtain ⟨hbetween, hheaders⟩ := headers_textOf tp hraws hphysical hlim
  have hroom := hbetween.room
  have hend := foldl_emptyLine hbetween.ready hbetween.buf hroom hlast
  have hview : ((fresh tp lim).feed chunks).1.view = block.foldl absorb (fresh tp lim) := by
    have hready : (block.foldl absorb (fresh tp lim)).ready = true := by
      rw [htext, List.foldl_append, hend]
    rw [view_feed, view_fresh tp (by omega), hchunks, List.foldl_append,
      ready_foldl_absorb hready]
  rw [htext, List.foldl_append, hend] at hview
  refine ⟨congrArg HTTPHeadersParser.ready hview,
    (congrArg HTTPHeadersParser.headers hview).trans hheaders, ?_⟩
  intro pre line hline
  refine faithful_iff ?_
  have hmem : line ∈ logicalLines block :=
    List.mem_of_mem_tail ((List.dropLast_subset _) (hline.subset (by simp)))
  unfold logicalLines at hmem
  rw [hphysical] at hmem
  cases raws with
  | nil => cases hmem
  | cons start raws =>
      obtain ⟨hstart, hrest⟩ := List.forall_mem_cons.mp hraws
      refine not_mem_joinLines (not_mem_kept hstart.1) ?_ line hmem
      intro other hother
      obtain ⟨raw, hraw, rfl⟩ := List.mem_map.mp hother
      exact not_mem_kept (hrest raw hraw).1

/-- A block that leaves nothing behind it is one. -/
theorem firstEmptyLine_of_write {block : List UInt8}
    (hready : ((fresh .REQUEST defaultLimit).write block).1.ready = true)
    (hrest : ((fresh .REQUEST defaultLimit).write block).2 = []) : FirstEmptyLine block := by
  obtain ⟨pre, hpre, hfirst⟩ := write_ready _ _ hready
  rw [hrest, List.append_nil] at hpre
  rwa [hpre]

/-- `GET /` with `A: b` and `B: c`, cut behind the first of them. -/
theorem header_lines_iff_example :
    ((fresh .REQUEST defaultLimit).feed
      [chars ['G', 'E', 'T', ' ', '/', '\r', '\n', 'A', ':', ' ', 'b', '\r'],
        chars ['\n', 'B', ':', ' ', 'c', '\r', '\n', '\r', '\n', '!']]).1.ready = true ∧
      Faithful .empty (chars ['A', ':', ' ', 'b']) := by
  have hblock : FirstEmptyLine (chars ['G', 'E', 'T', ' ', '/', '\r', '\n',
      'A', ':', ' ', 'b', '\r', '\n', 'B', ':', ' ', 'c', '\r', '\n', '\r', '\n']) :=
    firstEmptyLine_of_write (by decide) (by decide)
  have h := @header_lines_iff .REQUEST defaultLimit
    [chars ['G', 'E', 'T', ' ', '/', '\r', '\n', 'A', ':', ' ', 'b', '\r'],
      chars ['\n', 'B', ':', ' ', 'c', '\r', '\n', '\r', '\n', '!']]
    _ (chars ['!']) hblock (by decide) (by decide)
  refine ⟨h.1, (h.2.2 [] (chars ['A', ':', ' ', 'b']) (by decide)).mpr (Or.inl (Or.inl ?_))⟩
  refine ⟨chars ['A'], SP, chars ['b'], by decide, ?_, by decide, ?_, by decide⟩
  · rintro b (_ | ⟨_, ⟨⟩⟩)
    decide
  · rintro b ⟨⟩
    decide

/-- `L:5` and `Foo bar` between `GET /` and `X: y`: the first, which has the form, adds
nothing, and the second, which has not, adds `Fo` with the value `bar`. -/
theorem header_shortened :
    let block := chars ['G', 'E', 'T', ' ', '/', '\r', '\n', 'L', ':', '5', '\r', '\n',
      'F', 'o', 'o', ' ', 'b', 'a', 'r', '\r', '\n', 'X', ':', ' ', 'y', '\r', '\n', '\r', '\n']
    FirstEmptyLine block ∧
      headerLines block =
        [chars ['L', ':', '5'], chars ['F', 'o', 'o', ' ', 'b', 'a', 'r'],
          chars ['X', ':', ' ', 'y']] ∧
      ((fresh .REQUEST defaultLimit).feed [block]).1.headers.entries =
        [(chars ['F', 'o'], chars ['b', 'a', 'r'])] ∧
      ¬ Faithful .empty (chars ['L', ':', '5']) ∧
      ¬ Faithful .empty (chars ['F', 'o', 'o', ' ', 'b', 'a', 'r']) :=
  ⟨firstEmptyLine_of_write (by decide) (by decide), by decide, by decide, by decide, by decide⟩

end HTTPHeadersParser

end Craplib
