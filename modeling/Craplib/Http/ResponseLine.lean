import Craplib.Http.RoundTrip

/-!
# The start line of a response never comes back

The parser takes the version and the code of a response with `>>`, which stops before
the white space behind a word, and the status with `getline`, which does not skip it: the
space that `setResponse` puts between the code and the status becomes the first byte of
the status.  When the line behind the start line continues it, or is the empty line, the
start line is not parsed as one at all, and the version stays empty.

`parseLine_responseLine` is what the parser makes of the line, exactly;
`status_never_round_trips` is what follows for every block.
-/

namespace Craplib

/-! ## Numbers in decimal -/

theorem toNat_ofChar {c : Char} (hc : c.isDigit = true) :
    (UInt8.ofNat c.toNat).toNat = c.toNat ∧ 48 ≤ c.toNat ∧ c.toNat ≤ 57 := by
  simp only [Char.isDigit, ge_iff_le, Bool.and_eq_true, decide_eq_true_eq, UInt32.le_iff_toNat_le]
    at hc
  have hlo : 48 ≤ c.toNat := hc.1
  have hhi : c.toNat ≤ 57 := hc.2
  refine ⟨?_, hlo, hhi⟩
  rw [UInt8.toNat_ofNat']
  exact Nat.mod_eq_of_lt (by omega)

/-- Decimal digits as bytes are digits for the stream. -/
theorem isDigit_chars {cs : List Char} (hcs : ∀ c ∈ cs, c.isDigit = true) :
    ∀ b ∈ chars cs, isDigit b = true ∧ isSpace b = false := by
  intro b hb
  obtain ⟨c, hc, rfl⟩ := List.mem_map.mp hb
  obtain ⟨hnat, hlo, hhi⟩ := toNat_ofChar (hcs c hc)
  generalize UInt8.ofNat c.toNat = x at hnat ⊢
  have hdigit : 48 ≤ x ∧ x ≤ 57 := by
    rw [UInt8.le_iff_toNat_le, UInt8.le_iff_toNat_le, hnat]
    exact ⟨hlo, hhi⟩
  have hspace : ¬ x ≤ 13 ∧ x ≠ 32 := by
    rw [UInt8.le_iff_toNat_le, ne_eq, ← UInt8.toNat_inj, hnat]
    exact ⟨fun h => absurd h (by simp; omega), fun h => absurd h (by simp; omega)⟩
  simp [isDigit, isSpace, hdigit.1, hdigit.2, hspace.1, hspace.2]

/-- The value of decimal digits. -/
theorem digitsValue_chars {cs : List Char} (hcs : ∀ c ∈ cs, c.isDigit = true) (n : ℕ) :
    (chars cs).foldl (fun v b => 10 * v + ((b.toNat : ℤ) - 48)) n = Nat.ofDigitChars 10 cs n := by
  induction cs generalizing n with
  | nil => simp [chars]
  | cons c cs ih =>
      obtain ⟨hnat, hlo, -⟩ := toNat_ofChar (hcs c (by simp))
      have hstep : 10 * (n : ℤ) + (((UInt8.ofNat c.toNat).toNat : ℤ) - 48) =
          ((10 * n + (c.toNat - 48) : ℕ) : ℤ) := by
        rw [hnat]
        omega
      have hzero : '0'.toNat = 48 := rfl
      rw [Nat.ofDigitChars_cons, hzero, ← ih fun x hx => hcs x (List.mem_cons_of_mem _ hx)]
      show List.foldl _ (10 * (n : ℤ) + (((UInt8.ofNat c.toNat).toNat : ℤ) - 48)) (chars cs) = _
      rw [hstep]

namespace IStream

/-- `>>` into an `int` gives back a number that was written in decimal, and stops behind it. -/
theorem extractInt_intToStr {code : ℤ} (hlo : -2 ^ 31 ≤ code) (hhi : code < 2 ^ 31) (rest : Str)
    (old : ℤ) :
    (ofStr (SP :: (intToStr code ++ SP :: rest))).extractInt old = (ofStr (SP :: rest), code) := by
  have hall : ∀ c ∈ Nat.toDigits 10 code.natAbs, c.isDigit = true := fun c hc =>
    Nat.isDigit_of_mem_toDigits (by decide) (by decide) hc
  have hvalue : digitsValue (chars (Nat.toDigits 10 code.natAbs)) = code.natAbs := by
    have h := digitsValue_chars hall 0
    rw [Nat.ofDigitChars_ten_toDigits] at h
    exact h
  have hne : chars (Nat.toDigits 10 code.natAbs) ≠ [] := by simp [chars]
  have hstr : intToStr code =
      (if code < 0 then [45] else []) ++ chars (Nat.toDigits 10 code.natAbs) := rfl
  rw [hstr]
  have hdigits := isDigit_chars hall
  generalize chars (Nat.toDigits 10 code.natAbs) = ds at *
  obtain ⟨d, ds', rfl⟩ := List.exists_cons_of_ne_nil hne
  obtain ⟨htake, hdrop⟩ : (d :: ds' ++ SP :: rest).takeWhile isDigit = d :: ds' ∧
      (d :: ds' ++ SP :: rest).dropWhile isDigit = SP :: rest :=
    takeWhile_append_of_all (fun c hc => (hdigits c hc).1) fun c hc => by
      obtain rfl : SP = c := by simpa using hc
      decide
  obtain ⟨hd, hdspace⟩ := hdigits d (by simp)
  have hsign : d ≠ 45 ∧ d ≠ 43 := by
    constructor <;> rintro rfl <;> exact absurd hd (by decide)
  have hsp : isSpace SP = true := by decide
  by_cases hneg : code < 0
  · have hminus : isSpace 45 = false := by decide
    have hv : -digitsValue (d :: ds') = code := by
      rw [hvalue]
      omega
    have hlow : ¬ code < -2 ^ 31 := by omega
    have hhigh : ¬ 2 ^ 31 ≤ code := by omega
    have hsentry : (ofStr (SP :: ([45] ++ d :: ds' ++ SP :: rest))).sentry false =
        (ofStr (45 :: (d :: ds' ++ SP :: rest)), true) := by
      simp [sentry, ofStr, good, hsp, hminus]
    rw [if_pos hneg, extractInt, hsentry]
    simp only [ofStr, List.head?_cons, List.tail_cons, true_or, if_true, htake, hdrop, hv,
      if_neg hlow, if_neg hhigh, reduceCtorEq, if_false, List.isEmpty_cons]
  · have hv : digitsValue (d :: ds') = code := by
      rw [hvalue]
      omega
    have hlow : ¬ code < -2 ^ 31 := by omega
    have hhigh : ¬ 2 ^ 31 ≤ code := by omega
    have hsentry : (ofStr (SP :: ([] ++ d :: ds' ++ SP :: rest))).sentry false =
        (ofStr (d :: ds' ++ SP :: rest), true) := by
      simp [sentry, ofStr, good, hsp, hdspace]
    rw [if_neg hneg, extractInt, hsentry]
    simp only [ofStr, List.cons_append, List.head?_cons, Option.some.injEq, hsign.1, hsign.2,
      or_self, if_false] at htake hdrop ⊢
    simp only [htake, hdrop, hv, if_neg hlow, if_neg hhigh, reduceCtorEq, if_false,
      List.isEmpty_cons]

/-- `getline` behind a number takes the space in front of the text too. -/
theorem getline_space {status : Str} (hlf : LF ∉ status) (old : Str) :
    ((ofStr (SP :: status)).getline old).2 = SP :: status := by
  have hline : LF ∉ SP :: status := by
    rw [List.mem_cons, not_or]
    exact ⟨by decide, hlf⟩
  rw [getline_rest (by simp) hline]

end IStream

/-! ## The start line -/

/-- The start line `setResponse` makes, without its end. -/
def responseLine (version : HTTPVersion) (code : ℤ) (status : Str) : Str :=
  versionToString version ++ [SP] ++ intToStr code ++ [SP] ++ status

/-- The bytes of a number are neither line ends nor white space. -/
theorem intToStr_word (code : ℤ) : ∀ c ∈ intToStr code, isSpace c = false := by
  intro c hc
  rcases List.mem_append.mp hc with hc | hc
  · split at hc
    · obtain rfl : c = 45 := by simpa [chars] using hc
      decide
    · simp at hc
  · exact (isDigit_chars (fun x hx =>
      Nat.isDigit_of_mem_toDigits (by decide) (by decide) hx) c hc).2

theorem not_mem_responseLine {version : HTTPVersion} {code : ℤ} {status : Str} {b : UInt8}
    (hb : isSpace b = true) (hsp : b ≠ SP) (hstatus : b ∉ status) :
    b ∉ responseLine version code status := by
  have hnot : ∀ s : Str, (∀ c ∈ s, isSpace c = false) → b ∉ s := by
    intro s hs hmem
    rw [hs b hmem] at hb
    cases hb
  have hv := hnot _ (versionToString_word version).2
  have hc := hnot _ (intToStr_word code)
  simp [responseLine, hv, hc, hsp, hstatus]

namespace HTTPHeadersParser

/-- **What the parser makes of the start line**: the version and the code as they were
written, and the status with a space in front. -/
theorem parseLine_responseLine {q : HTTPHeadersParser} (hnum : q.lineNum = 1)
    (htype : q.type = .RESPONSE) {version : HTTPVersion} {code : ℤ} {status : Str}
    (hlo : -2 ^ 31 ≤ code) (hhi : code < 2 ^ 31) (hlf : LF ∉ status) :
    q.parseLine (responseLine version code status) =
      { q with version := versionToString version, code, status := SP :: status } := by
  obtain ⟨hvne, hv⟩ := versionToString_word version
  have h1 : (IStream.ofStr (responseLine version code status)).extractStr q.version =
      (IStream.ofStr (SP :: (intToStr code ++ SP :: status)), versionToString version) := by
    have hsplit : responseLine version code status =
        versionToString version ++ SP :: (intToStr code ++ SP :: status) := by
      simp [responseLine]
    rw [hsplit]
    exact IStream.extractStr_word_cons hvne hv (by decide) _
  have h2 : (IStream.ofStr (SP :: (intToStr code ++ SP :: status))).extractInt q.code =
      (IStream.ofStr (SP :: status), code) := IStream.extractInt_intToStr hlo hhi status q.code
  have h3 : ((IStream.ofStr (SP :: status)).getline q.status).2 = SP :: status :=
    IStream.getline_space hlf q.status
  rw [parseLine, if_pos hnum, htype]
  simp only [h1, h2, h3]

/-! ## Before, at and behind the end of the start line -/

variable {q : HTTPHeadersParser} {line status : Str}

/-- What a byte does to the parser `r` that has counted it. -/
theorem take_eq {r : HTTPHeadersParser} (hr : r = { q with count := q.count + 1 }) (p : UInt8) :
    q.take p =
      if p = CR then r
      else if p = LF then
        if r.buf = [] then { r with lineNum := r.lineNum + 1, buf := [], ready := true }
        else { r with lineNum := r.lineNum + 1 }.endLine
      else r.store p := by
  subst hr
  rfl

/-- No line has ended yet, and nothing has been parsed. -/
def Unparsed (q : HTTPHeadersParser) : Prop := q.lineNum = 0 ∧ q.version = []

theorem Unparsed.absorb {p : UInt8} (hp : p ≠ LF) (h : Unparsed q) : Unparsed (q.absorb p) := by
  unfold HTTPHeadersParser.absorb
  split
  · exact h
  · have hr : Unparsed { q with count := q.count + 1 } := h
    rw [take_eq rfl, if_neg hp]
    generalize ({ q with count := q.count + 1 } : HTTPHeadersParser) = r at hr ⊢
    obtain ⟨hnum, hversion⟩ := hr
    have hbegin : r.beginLine p = r := by
      rw [beginLine, if_neg (show ¬ 0 < r.lineNum by omega), ite_self]
    rw [store, hbegin, ite_self]
    split
    · exact ⟨hnum, hversion⟩
    · exact ⟨hnum, hversion⟩

/-- As long as no line feed has come, nothing is parsed. -/
theorem Unparsed.foldl {bs : Str} (hbs : LF ∉ bs) (h : Unparsed q) :
    Unparsed (bs.foldl HTTPHeadersParser.absorb q) := by
  induction bs generalizing q with
  | nil => exact h
  | cons b bs ih =>
      rw [List.mem_cons, not_or] at hbs
      exact ih hbs.2 (h.absorb (Ne.symm hbs.1))

/-- The start line is complete and not parsed yet. -/
structure Complete (line : Str) (q : HTTPHeadersParser) : Prop where
  lineNum : q.lineNum = 1
  buf : q.buf = []
  curLine : q.curLine = line
  version : q.version = []
  type : q.type = .RESPONSE

/-- The time to parse the start line as one is over: either it was not, or the status has a
space in front. -/
structure Behind (status : Str) (q : HTTPHeadersParser) : Prop where
  lineNum : 1 ≤ q.lineNum
  begun : q.lineNum = 1 → q.buf ≠ []
  spoilt : q.version = [] ∨ q.status = SP :: status

/-- A header line is parsed without a look at the start line. -/
theorem parseLine_start (hnum : q.lineNum ≠ 1) (line : Str) :
    (q.parseLine line).version = q.version ∧ (q.parseLine line).status = q.status := by
  rw [parseLine, if_neg hnum]
  dsimp only
  split_ifs
  · exact ⟨rfl, rfl⟩
  · exact ⟨rfl, rfl⟩

/-- **The byte behind the start line** leaves it unparsed, or parses it with the space. -/
theorem Complete.absorb {version : HTTPVersion} {code : ℤ} (hlo : -2 ^ 31 ≤ code)
    (hhi : code < 2 ^ 31) (hlf : LF ∉ status) (h : Complete (responseLine version code status) q)
    (p : UInt8) : Complete (responseLine version code status) (q.absorb p) ∨
      Behind status (q.absorb p) := by
  unfold HTTPHeadersParser.absorb
  split
  · exact Or.inl h
  have hr : Complete (responseLine version code status) { q with count := q.count + 1 } :=
    ⟨h.lineNum, h.buf, h.curLine, h.version, h.type⟩
  rw [take_eq rfl]
  generalize ({ q with count := q.count + 1 } : HTTPHeadersParser) = r at hr ⊢
  obtain ⟨hnum, hbuf, hcur, hversion, htype⟩ := hr
  by_cases hcr : p = CR
  · rw [if_pos hcr]
    exact Or.inl ⟨hnum, hbuf, hcur, hversion, htype⟩
  right
  rw [if_neg hcr]
  by_cases hnl : p = LF
  · -- the empty line: there is no more to come
    rw [if_pos hnl, if_pos hbuf]
    refine ⟨?_, fun hone => ?_, Or.inl hversion⟩
    · show 1 ≤ r.lineNum + 1
      omega
    · have hone' : r.lineNum + 1 = 1 := hone
      omega
  · rw [if_neg hnl, store, if_pos hbuf, beginLine]
    by_cases hblank : p = SP ∨ p = HT
    · -- a continuation: later the joined line is not the first one any more
      rw [if_pos hblank]
      exact ⟨by show 1 ≤ r.lineNum; omega, fun _ => by simp, Or.inl hversion⟩
    · rw [if_neg hblank, if_pos (by omega), hcur,
        parseLine_responseLine hnum htype hlo hhi hlf]
      exact ⟨by show 1 ≤ r.lineNum; omega, fun _ => by simp, Or.inr rfl⟩

/-- Behind the start line nothing is mended. -/
theorem Behind.absorb (h : Behind status q) (p : UInt8) : Behind status (q.absorb p) := by
  unfold HTTPHeadersParser.absorb
  split
  · exact h
  have hr : Behind status { q with count := q.count + 1 } := ⟨h.lineNum, h.begun, h.spoilt⟩
  rw [take_eq rfl]
  generalize ({ q with count := q.count + 1 } : HTTPHeadersParser) = r at hr ⊢
  obtain ⟨hnum, hbegun, hspoilt⟩ := hr
  by_cases hcr : p = CR
  · rw [if_pos hcr]
    exact ⟨hnum, hbegun, hspoilt⟩
  rw [if_neg hcr]
  by_cases hnl : p = LF
  · have hlater : 1 ≤ r.lineNum + 1 ∧ r.lineNum + 1 ≠ 1 := by omega
    rw [if_pos hnl]
    split
    · exact ⟨hlater.1, fun hone => absurd hone hlater.2, hspoilt⟩
    · exact ⟨hlater.1, fun hone => absurd hone hlater.2, hspoilt⟩
  · rw [if_neg hnl, store]
    by_cases hbuf : r.buf = []
    · have hlater : r.lineNum ≠ 1 := fun hone => hbegun hone hbuf
      rw [if_pos hbuf, beginLine]
      by_cases hblank : p = SP ∨ p = HT
      · rw [if_pos hblank]
        exact ⟨hnum, fun _ => by simp, hspoilt⟩
      · obtain ⟨hversion, hstatus⟩ := parseLine_start hlater r.curLine
        rw [if_neg hblank, if_pos (by omega)]
        refine ⟨?_, fun _ => by simp, ?_⟩
        · simpa using hnum
        · simpa only [hversion, hstatus] using hspoilt
    · rw [if_neg hbuf]
      exact ⟨hnum, fun _ => by simp, hspoilt⟩

/-- Whatever follows the start line, it does not come back. -/
theorem foldl_complete_or_behind {version : HTTPVersion} {code : ℤ} (hlo : -2 ^ 31 ≤ code)
    (hhi : code < 2 ^ 31) (hlf : LF ∉ status) (bs : Str)
    (h : Complete (responseLine version code status) q ∨ Behind status q) :
    Complete (responseLine version code status) (bs.foldl HTTPHeadersParser.absorb q) ∨
      Behind status (bs.foldl HTTPHeadersParser.absorb q) := by
  induction bs generalizing q with
  | nil => exact h
  | cons b bs ih =>
      refine ih ?_
      rcases h with h | h
      · exact h.absorb hlo hhi hlf b
      · exact Or.inr (h.absorb b)

/-- The end of the start line completes it. -/
theorem complete_of_foldl {lim : ℤ} {version : HTTPVersion} {code : ℤ} (hcr : CR ∉ status)
    (hlf : LF ∉ status) (hlim : ((responseLine version code status ++ crlf).length : ℤ) < lim) :
    Complete (responseLine version code status)
      ((responseLine version code status ++ crlf).foldl HTTPHeadersParser.absorb
        (fresh .RESPONSE lim)) := by
  obtain ⟨hvne, hv⟩ := versionToString_word version
  obtain ⟨c, s, hcs⟩ := List.exists_cons_of_ne_nil hvne
  have htext : responseLine version code status =
      c :: (s ++ [SP] ++ intToStr code ++ [SP] ++ status) := by
    simp [responseLine, hcs]
  have hmemcr : CR ∉ responseLine version code status :=
    not_mem_responseLine (by decide) (by decide) hcr
  have hmemlf : LF ∉ responseLine version code status :=
    not_mem_responseLine (by decide) (by decide) hlf
  have hc : isSpace c = false := hv c (by simp [hcs])
  rw [htext] at hlim hmemcr hmemlf ⊢
  rw [foldl_line rfl rfl (by simpa [fresh] using hlim) hmemcr hmemlf, beginLine_word hc]
  constructor <;> simp [fresh]

/-- A parser has got back the start line of a response. -/
def ResponseRoundTrips (self : HTTPHeadersParser) (version : HTTPVersion) (code : ℤ)
    (status : Str) : Prop :=
  self.version = versionToString version ∧ self.code = code ∧ self.status = status

instance (self : HTTPHeadersParser) (version : HTTPVersion) (code : ℤ) (status : Str) :
    Decidable (self.ResponseRoundTrips version code status) :=
  inferInstanceAs (Decidable (_ ∧ _))

/-- **No start line of a response makes the round trip.**  Whatever the version, the code,
the status and the headers: the block the writer yields, fed in any chunks to a fresh
parser with a larger limit, does not give them back. -/
theorem status_never_round_trips {writer : HTTPHeadersWriter} {version : HTTPVersion} {code : ℤ}
    {lim : ℤ} {block : List UInt8} {chunks : List (List UInt8)} (hlo : -2 ^ 31 ≤ code)
    (hhi : code < 2 ^ 31) (hcr : CR ∉ status) (hlf : LF ∉ status)
    (hblock : (writer.setResponse version code status).getData.2 = .ok block)
    (hlim : (block.length : ℤ) < lim) (hchunks : chunks.flatten = block) :
    ¬ ((fresh .RESPONSE lim).feed chunks).1.ResponseRoundTrips version code status := by
  obtain ⟨hvne, -⟩ := versionToString_word version
  have hview : ((fresh .RESPONSE lim).feed chunks).1.view =
      block.foldl HTTPHeadersParser.absorb (fresh .RESPONSE lim) := by
    rw [view_feed, view_fresh _ (by omega), hchunks]
  rintro ⟨hversion, -, hstatus⟩
  change ((fresh .RESPONSE lim).feed chunks).1.view.version = _ at hversion
  change ((fresh .RESPONSE lim).feed chunks).1.view.status = _ at hstatus
  rw [hview] at hversion hstatus
  have hpre : block <+: responseLine version code status ++ [CR] ++
      LF :: (writer.headers.entries.flatMap HTTPHeadersWriter.headerLine ++ crlf) := by
    have htext : (writer.setResponse version code status).text =
        responseLine version code status ++ [CR] ++
          LF :: (writer.headers.entries.flatMap HTTPHeadersWriter.headerLine ++ crlf) := by
      simp [HTTPHeadersWriter.text, HTTPHeadersWriter.setResponse, responseLine, crlf]
    exact htext ▸ HTTPHeadersWriter.block_of_getData hblock
  -- a block that was cut inside its first line has no version
  have hcut : block <+: responseLine version code status ++ [CR] → False := by
    intro hshort
    have hmem : LF ∉ block := by
      intro h
      rcases List.mem_append.mp (hshort.subset h) with h | h
      · exact not_mem_responseLine (by decide) (by decide) hlf h
      · exact absurd (List.mem_singleton.mp h) (by decide)
    obtain ⟨-, hnone⟩ := Unparsed.foldl (q := fresh .RESPONSE lim) hmem ⟨rfl, rfl⟩
    exact hvne (hversion.symm.trans hnone)
  rcases List.prefix_or_prefix_of_prefix hpre (List.prefix_append _ _) with hshort | ⟨rest, hrest⟩
  · exact hcut hshort
  · rw [← hrest, List.prefix_append_right_inj] at hpre
    rcases List.prefix_cons_iff.mp hpre with rfl | ⟨rest', rfl, -⟩
    · exact hcut ⟨[], by rw [List.append_nil, ← hrest, List.append_nil]⟩
    · have hsplit : responseLine version code status ++ [CR] ++ LF :: rest' =
          responseLine version code status ++ crlf ++ rest' := by simp [crlf]
      rw [hsplit] at hrest
      have hlen := congrArg List.length hrest
      rw [List.length_append] at hlen
      rw [← hrest, List.foldl_append] at hversion hstatus
      have hstart : Complete (responseLine version code status)
          ((responseLine version code status ++ crlf).foldl HTTPHeadersParser.absorb
            (fresh .RESPONSE lim)) := complete_of_foldl hcr hlf (by omega)
      rcases foldl_complete_or_behind hlo hhi hlf rest' (Or.inl hstart) with h | h
      · exact hvne (hversion.symm.trans h.version)
      · rcases h.spoilt with h | h
        · exact hvne (hversion.symm.trans h)
        · exact List.cons_ne_self _ _ (h.symm.trans hstatus)

/-- The writer of a response with the headers `A: b` and `B: `. -/
def exampleWriter : HTTPHeadersWriter :=
  HTTPHeadersWriter.fresh.addHeaders [exampleHeader, (chars ['B'], chars [])]

/-- The block it yields for `HTTP/1.1 200 OK`. -/
def exampleResponse : List UInt8 :=
  responseLine .HTTP_1_1 200 (chars ['O', 'K']) ++ crlf ++ chars ['A', ':', ' ', 'b'] ++ crlf ++
    chars ['B', ':', ' '] ++ crlf ++ crlf

/-- `HTTP/1.1 200 OK` with two headers, in two chunks. -/
theorem status_never_round_trips_example :
    ¬ ((fresh .RESPONSE defaultLimit).feed
      [exampleResponse.take 5, exampleResponse.drop 5]).1.ResponseRoundTrips .HTTP_1_1 200
        (chars ['O', 'K']) := by
  have hblock : (exampleWriter.setResponse .HTTP_1_1 200 (chars ['O', 'K'])).getData.2 =
      .ok exampleResponse := by decide
  exact status_never_round_trips (by decide) (by decide) (by decide) (by decide) hblock
    (by decide) (by simp)

/-- `HTTP/1.1 200 OK` with two headers comes back with the status ` OK`. -/
theorem status_gains_space :
    (exampleWriter.setResponse .HTTP_1_1 200 (chars ['O', 'K'])).getData.2 =
      .ok exampleResponse ∧
    exampleWriter.headers.entries.length = 2 ∧ (exampleResponse.length : ℤ) < defaultLimit ∧
    ((fresh .RESPONSE defaultLimit).feed [exampleResponse]).1.ready = true ∧
    ((fresh .RESPONSE defaultLimit).feed [exampleResponse]).1.status = chars [' ', 'O', 'K'] ∧
    ¬ ((fresh .RESPONSE defaultLimit).feed [exampleResponse]).1.ResponseRoundTrips .HTTP_1_1 200
      (chars ['O', 'K']) := by
  refine ⟨?_, ?_, ?_, ?_, ?_, ?_⟩ <;> decide

end HTTPHeadersParser

end Craplib
