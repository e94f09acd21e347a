import Mathlib.Data.List.DropRight
import Mathlib.Order.Nat
import Craplib.Lib.Incremental
import Craplib.Http.HeadersParser

/-!
# Header parsing does not depend on how the bytes arrive

`HTTPHeadersParser::write` is a consumer in the sense of `Lib.Incremental`: it takes
the bytes of a chunk one by one and returns early at the limit and at the empty
line.  Its view is the parser with `count` clamped just below the limit.  Past the
limit every call still takes one byte and counts it, and that is all that a
different cut of the stream can change.

`write_chunks` is the result: two ways of cutting one stream leave parsers that
agree, and a parser that is ready has stopped right behind the first empty line.
-/

namespace Craplib

/-- The bytes end with an empty line: behind the line feed before the last one there
are only carriage returns. -/
def EndsEmptyLine (pre : List UInt8) : Prop :=
  ∃ line, pre = line ++ [LF] ∧ ∀ c ∈ line.rtakeWhile (· != LF), c = CR

/-- The bytes up to and including the first empty line of a stream. -/
def FirstEmptyLine (pre : List UInt8) : Prop :=
  EndsEmptyLine pre ∧ ∀ p, p <+: pre → EndsEmptyLine p → p = pre

namespace HTTPHeadersParser

/-! ## One byte at a time -/

section Fields

variable (self : HTTPHeadersParser) (line : Str) (p : UInt8)

@[simp] theorem parseLine_ready : (self.parseLine line).ready = self.ready := by
  unfold parseLine
  split <;> [split; skip] <;> simp only [apply_ite ready, ite_self]

@[simp] theorem parseLine_limit : (self.parseLine line).limit = self.limit := by
  unfold parseLine
  split <;> [split; skip] <;> simp only [apply_ite limit, ite_self]

@[simp] theorem parseLine_count : (self.parseLine line).count = self.count := by
  unfold parseLine
  split <;> [split; skip] <;> simp only [apply_ite count, ite_self]

@[simp] theorem parseLine_buf : (self.parseLine line).buf = self.buf := by
  unfold parseLine
  split <;> [split; skip] <;> simp only [apply_ite buf, ite_self]

@[simp] theorem take_limit : (self.take p).limit = self.limit := by
  simp only [take, store, beginLine, endLine, apply_ite limit, parseLine_limit, ite_self]

@[simp] theorem take_count : (self.take p).count = self.count + 1 := by
  simp only [take, store, beginLine, endLine, apply_ite count, parseLine_count, ite_self]

theorem take_ready :
    (self.take p).ready = if p = LF ∧ self.buf = [] then true else self.ready := by
  simp only [take, store, beginLine, endLine, apply_ite ready, parseLine_ready, ite_self]
  have hcr : ¬ CR = LF := by decide
  grind

theorem take_buf :
    (self.take p).buf = if p = CR then self.buf else if p = LF then [] else self.buf ++ [p] := by
  simp only [take, store, beginLine, endLine, apply_ite buf, parseLine_buf, ite_self]

end Fields

/-- One step of `write`: the parser, and whether `write` returns. -/
def next (self : HTTPHeadersParser) (p : UInt8) : HTTPHeadersParser × Bool :=
  if self.limit ≤ self.count + 1 then ({ self with count := self.count + 1 }, true)
  else (self.take p, (self.take p).ready)

theorem writeLoop_eq_consume {self : HTTPHeadersParser} (hs : self.ready = false)
    (data : List UInt8) : self.writeLoop data = Incremental.consume next self data := by
  induction data generalizing self with
  | nil => rfl
  | cons p data ih =>
      rw [writeLoop, Incremental.consume, next]
      by_cases hlim : self.limit ≤ self.count + 1
      · simp only [hlim, if_true]
      · simp only [hlim, if_false]
        have hready := take_ready self p
        by_cases hend : p = LF ∧ self.buf = []
        · -- the empty line
          rw [if_pos hend] at hready
          rw [if_neg (by rw [hend.1]; decide), if_pos hend.1, if_pos hend.2, hready, if_pos rfl,
            take, if_neg (by rw [hend.1]; decide), if_pos hend.1, if_pos hend.2]
        · rw [if_neg hend, hs] at hready
          rw [hready, if_neg Bool.false_ne_true, ← ih hready]
          unfold take store
          by_cases hcr : p = CR
          · rw [if_pos hcr, if_pos hcr]
          · rw [if_neg hcr, if_neg hcr]
            by_cases hlf : p = LF
            · have hbuf : self.buf ≠ [] := fun h => hend ⟨hlf, h⟩
              rw [if_pos hlf, if_pos hlf, if_neg hbuf, if_neg hbuf]
            · rw [if_neg hlf, if_neg hlf]

/-! ## The view -/

/-- The parser with `count` clamped just below the limit. -/
def view (self : HTTPHeadersParser) : HTTPHeadersParser :=
  { self with count := min self.count (self.limit - 1) }

/-- What one byte does to the view. -/
def absorb (self : HTTPHeadersParser) (p : UInt8) : HTTPHeadersParser :=
  if self.ready ∨ self.limit ≤ self.count + 1 then self else self.take p

theorem view_eq_self {self : HTTPHeadersParser} (h : self.count ≤ self.limit - 1) :
    self.view = self := by
  rw [view, Int.min_eq_left h]

/-- Bytes move the view of the parser by `absorb`, whatever the chunks. -/
theorem absorbs : Incremental.Absorbs next ready view absorb ready where
  done_eq _ := rfl
  next_view self p hs := by
    by_cases hlim : self.limit ≤ self.count + 1
    · have hnow : min self.count (self.limit - 1) = self.limit - 1 := by omega
      have hthen : min (self.count + 1) (self.limit - 1) = self.limit - 1 := by omega
      rw [next, if_pos hlim, absorb, if_pos (Or.inr (by simp only [view]; omega))]
      simp only [view, hnow, hthen]
    · have hself : self.view = self := view_eq_self (by omega)
      have hdone : ¬ (self.ready = true ∨ self.limit ≤ self.count + 1) := by simp [hs, hlim]
      rw [next, if_neg hlim, hself, absorb, if_neg hdone]
      exact view_eq_self (by rw [take_count, take_limit]; omega)
  done_absorbs self p hs := by
    have hview : self.view.ready = true := hs
    rw [absorb, if_pos (Or.inl hview)]
  returned_absorbs self p q hs hret := by
    rw [absorb, if_pos]
    by_cases hlim : self.limit ≤ self.count + 1
    · rw [next, if_pos hlim]
      right
      simp only [view]
      omega
    · rw [next, if_neg hlim] at hret ⊢
      exact Or.inl hret
  done_returns self p hs hd := by
    by_cases hlim : self.limit ≤ self.count + 1
    · rw [next, if_pos hlim] at hd
      rw [hs] at hd
      simp at hd
    · rw [next, if_neg hlim] at hd ⊢
      exact hd

theorem write_eq_consume (self : HTTPHeadersParser) (data : List UInt8) (hs : self.ready = false) :
    self.write data = Incremental.consume next self data := by
  rw [write, if_neg (by simp [hs]), writeLoop_eq_consume hs]

/-! ## The first empty line -/

/-- As long as neither the limit nor an empty line has been seen, `buf` holds the
current physical line without its carriage returns. -/
theorem buf_eq (tp : ParserType) (lim : ℤ) (pre : List UInt8)
    (hready : (pre.foldl absorb (fresh tp lim).view).ready = false)
    (hlim : ¬ (pre.foldl absorb (fresh tp lim).view).limit ≤
      (pre.foldl absorb (fresh tp lim).view).count + 1) :
    (pre.foldl absorb (fresh tp lim).view).buf =
      (pre.rtakeWhile (· != LF)).filter (· != CR) := by
  induction pre using List.reverseRecOn with
  | nil => rfl
  | append_singleton pre p ih =>
      rw [List.foldl_append, List.foldl_cons, List.foldl_nil] at hready hlim ⊢
      generalize pre.foldl absorb (fresh tp lim).view = q at *
      by_cases hfixed : q.ready = true ∨ q.limit ≤ q.count + 1
      · rw [absorb, if_pos hfixed] at hready hlim
        rcases hfixed with h | h
        · rw [hready] at h
          simp at h
        · exact absurd h hlim
      · rw [absorb, if_neg hfixed] at hready hlim ⊢
        have hbuf := ih (by simpa using fun h => hfixed (Or.inl h)) fun h => hfixed (Or.inr h)
        rw [take_buf, List.rtakeWhile_concat, hbuf]
        have hcr : ¬ CR = LF := by decide
        grind

/-- The byte that makes the parser ready ends an empty line, and every earlier one
that does would have made it ready. -/
theorem ready_iff_endsEmptyLine (tp : ParserType) (lim : ℤ) (line : List UInt8) (p : UInt8)
    (hready : (line.foldl absorb (fresh tp lim).view).ready = false)
    (hlim : ¬ (line.foldl absorb (fresh tp lim).view).limit ≤
      (line.foldl absorb (fresh tp lim).view).count + 1) :
    ((line ++ [p]).foldl absorb (fresh tp lim).view).ready = true ↔
      EndsEmptyLine (line ++ [p]) := by
  have hbuf := buf_eq tp lim line hready hlim
  rw [List.foldl_append, List.foldl_cons, List.foldl_nil]
  generalize line.foldl absorb (fresh tp lim).view = q at *
  have hopen : ¬ (q.ready = true ∨ q.limit ≤ q.count + 1) := by simp [hready, hlim]
  rw [absorb, if_neg hopen, take_ready, hready, hbuf]
  have hall : (line.rtakeWhile (· != LF)).filter (· != CR) = [] ↔
      ∀ c ∈ line.rtakeWhile (· != LF), c = CR := by simp [List.filter_eq_nil_iff]
  simp only [hall]
  unfold EndsEmptyLine
  constructor
  · intro h
    split at h
    · next hend =>
        obtain ⟨rfl, hcr⟩ := hend
        exact ⟨line, rfl, hcr⟩
    · simp at h
  · rintro ⟨line', heq, hcr⟩
    obtain ⟨rfl, hp⟩ := List.append_inj' heq rfl
    rw [if_pos ⟨List.singleton_inj.mp hp, hcr⟩]

theorem firstEmptyLine (tp : ParserType) (lim : ℤ) {used : List UInt8}
    (hfin : (used.foldl absorb (fresh tp lim).view).ready = true)
    (hleast : ∀ p, p <+: used → p ≠ used →
      (p.foldl absorb (fresh tp lim).view).ready = false) : FirstEmptyLine used := by
  -- the limit is not met on the way: from there on nothing would make the parser ready
  have hopen : ∀ p, p <+: used → p ≠ used → ¬ (p.foldl absorb (fresh tp lim).view).limit ≤
      (p.foldl absorb (fresh tp lim).view).count + 1 := by
    intro p hp hne hlim
    have hnot := hleast p hp hne
    obtain ⟨q, rfl⟩ := hp
    have hfixed : ∀ a, absorb (p.foldl absorb (fresh tp lim).view) a =
        p.foldl absorb (fresh tp lim).view := fun a => if_pos (Or.inr hlim)
    rw [List.foldl_append, Incremental.foldl_of_fixed hfixed q, hnot] at hfin
    simp at hfin
  have hsnoc : ∀ line p, line ++ [p] <+: used →
      (((line ++ [p]).foldl absorb (fresh tp lim).view).ready = true ↔
        EndsEmptyLine (line ++ [p])) := by
    intro line p hp
    have hline : line <+: used := (List.prefix_append _ _).trans hp
    have hne : line ≠ used := by
      rintro rfl
      have hlen := hp.length_le
      simp only [List.length_append, List.length_singleton] at hlen
      omega
    exact ready_iff_endsEmptyLine tp lim line p (hleast line hline hne) (hopen line hline hne)
  constructor
  · induction used using List.reverseRecOn with
    | nil => simp [fresh, view] at hfin
    | append_singleton line p _ => exact (hsnoc line p List.prefix_rfl).mp hfin
  · intro p hp hempty
    by_contra hne
    obtain ⟨line, rfl, hcr⟩ := hempty
    have hready := (hsnoc line LF hp).mpr ⟨line, rfl, hcr⟩
    rw [hleast _ hp hne] at hready
    simp at hready

/-! ## Whole streams -/

/-- Feeding chunks in order to `write` until the parser is ready or the stream ends:
the parser, and what it left of the chunks. -/
def feed (self : HTTPHeadersParser) (chunks : List (List UInt8)) :
    HTTPHeadersParser × List (List UInt8) :=
  Incremental.feed ready write self chunks

/-- What can be seen of the parser from outside. -/
def visible (self : HTTPHeadersParser) : Bool × Str × Str × Str × ℤ × Str × HeaderMap :=
  (self.ready, self.method, self.action, self.version, self.code, self.status, self.headers)

theorem visible_view (self : HTTPHeadersParser) : self.view.visible = self.visible := rfl

theorem view_feed (self : HTTPHeadersParser) (chunks : List (List UInt8)) :
    (self.feed chunks).1.view = chunks.flatten.foldl absorb self.view :=
  absorbs.view_feed write_eq_consume self chunks

/-- A parser that is ready has left what follows the first empty line of the stream. -/
theorem feed_ready (tp : ParserType) (lim : ℤ) (chunks : List (List UInt8))
    (hready : ((fresh tp lim).feed chunks).1.ready = true) :
    ∃ pre, chunks.flatten = pre ++ ((fresh tp lim).feed chunks).2.flatten ∧ FirstEmptyLine pre := by
  obtain ⟨pre, hpre, hfin, hleast⟩ := absorbs.feed_done write_eq_consume (s := fresh tp lim)
    rfl hready
  exact ⟨pre, hpre, firstEmptyLine tp lim hfin hleast⟩

/-- A parser that one `write` has made ready has left what follows the first empty line. -/
theorem write_ready (tp : ParserType) (lim : ℤ) {data : List UInt8}
    (hready : ((fresh tp lim).write data).1.ready = true) :
    ∃ pre, data = pre ++ ((fresh tp lim).write data).2 ∧ FirstEmptyLine pre := by
  have hfresh : (fresh tp lim).ready = false := rfl
  have hfeed : (fresh tp lim).feed [data] =
      (((fresh tp lim).write data).1, [((fresh tp lim).write data).2]) := by
    rw [feed, Incremental.feed, if_neg (by simp [hfresh]), if_pos hready]
  have hline := feed_ready tp lim [data]
  rw [hfeed] at hline
  simpa using hline hready

/-- **Header parsing does not depend on the chunks.**  Two ways of cutting a stream
leave parsers that look the same.  A parser that is ready has left exactly what
follows the first empty line of the stream, and no further `write` takes a byte or
changes it. -/
theorem write_chunks (tp : ParserType) (lim : ℤ) (chunks chunks' : List (List UInt8))
    (h : chunks.flatten = chunks'.flatten) :
    ((fresh tp lim).feed chunks).1.visible = ((fresh tp lim).feed chunks').1.visible ∧
    (((fresh tp lim).feed chunks).1.ready = true →
      (∃ pre, chunks.flatten = pre ++ ((fresh tp lim).feed chunks).2.flatten ∧
        FirstEmptyLine pre) ∧
      ∀ data,
        ((fresh tp lim).feed chunks).1.write data = (((fresh tp lim).feed chunks).1, data)) := by
  constructor
  · have hview : ((fresh tp lim).feed chunks).1.view = ((fresh tp lim).feed chunks').1.view := by
      rw [view_feed, view_feed, h]
    rw [← visible_view, hview, visible_view]
  · intro hready
    exact ⟨feed_ready tp lim chunks hready, fun data => if_pos hready⟩

/-- A request cut inside its line ends and behind its blank line, where two bytes
are left. -/
theorem write_chunks_example :
    ((fresh .REQUEST 4096).feed
      [[71, 32, 47, 13], [10], [], [65, 58, 32, 98, 13, 10, 13], [10, 1], [2]]).1.visible =
    ((fresh .REQUEST 4096).feed
      [[71, 32, 47, 13, 10, 65, 58, 32, 98, 13, 10, 13, 10, 1, 2]]).1.visible ∧
    ∃ pre, [71, 32, 47, 13, 10, 65, 58, 32, 98, 13, 10, 13, 10, 1, 2] =
      pre ++ ((fresh .REQUEST 4096).feed
        [[71, 32, 47, 13], [10], [], [65, 58, 32, 98, 13, 10, 13], [10, 1], [2]]).2.flatten ∧
      FirstEmptyLine pre :=
  have h := write_chunks .REQUEST 4096
    [[71, 32, 47, 13], [10], [], [65, 58, 32, 98, 13, 10, 13], [10, 1], [2]]
    [[71, 32, 47, 13, 10, 65, 58, 32, 98, 13, 10, 13, 10, 1, 2]] rfl
  ⟨h.1, (h.2 (by decide)).1⟩

end HTTPHeadersParser

end Craplib
