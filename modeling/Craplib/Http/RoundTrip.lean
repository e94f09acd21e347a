import Craplib.Http.Lines
import Craplib.Http.HeadersWriter

/-!
# The request round trip loses the last header

`HTTPHeadersParser` parses a logical line when it sees the first byte of the next
one.  At the empty line there is no next one: `write` sets `ready` and returns, and
the line that was last is never parsed.  A block of `HTTPHeadersWriter` therefore
comes back without its last header, and a block without headers comes back without
its request line.

`write_block` is what the parser makes of a block, exactly; `never_round_trips` is
what follows for the round trip.
-/

namespace Craplib

namespace HTTPHeadersParser

/-! ## Lines -/

section Lines

variable {q : HTTPHeadersParser}

/-- **One line of a block**: its first byte begins it, and it is then kept until the
next line begins. -/
theorem foldl_line {c : UInt8} {s : Str} (hready : q.ready = false) (hbuf : q.buf = [])
    (hlim : q.count + (c :: s ++ crlf).length < q.limit) (hcr : CR ∉ c :: s) (hlf : LF ∉ c :: s) :
    (c :: s ++ crlf).foldl absorb q =
      { q.beginLine c with
        curLine := (q.beginLine c).curLine ++ c :: s
        buf := []
        count := q.count + (c :: s ++ crlf).length
        lineNum := (q.beginLine c).lineNum + 1 } := by
  have hsplit : c :: s ++ crlf = (c :: s ++ [CR]) ++ [LF] := by simp [crlf]
  have hkept : (c :: s ++ [CR]).filter (· != CR) = c :: s := by
    rw [List.filter_append, List.filter_eq_self.mpr fun b hb => by
      rw [bne_iff_ne]
      rintro rfl
      exact hcr hb]
    simp
  have hline : LF ∉ c :: s ++ [CR] := by
    rw [List.mem_append, not_or]
    exact ⟨hlf, by decide⟩
  rw [hsplit] at hlim ⊢
  exact foldl_bytesLine hready hbuf hlim hline hkept

/-- The line that ends a block. -/
theorem foldl_crlf (hready : q.ready = false) (hbuf : q.buf = [])
    (hlim : q.count + 2 < q.limit) :
    crlf.foldl absorb q =
      { q with ready := true, count := q.count + 2, lineNum := q.lineNum + 1 } :=
  @foldl_emptyLine q [CR] hready hbuf hlim (by simp)

end Lines

end HTTPHeadersParser

/-! ## Blocks -/

/-- `iscntrl`. -/
def isControl (c : UInt8) : Bool := c < 32 || c == 127

/-- A query that is not empty and has no white space or control bytes. -/
def GoodQuery (query : Str) : Prop :=
  query ≠ [] ∧ ∀ c ∈ query, isSpace c = false ∧ isControl c = false

/-- A header whose name is not empty and has no white space, and whose value is on one
line. -/
def GoodHeader (e : Str × Str) : Prop :=
  e.1 ≠ [] ∧ (∀ c ∈ e.1, isSpace c = false) ∧ CR ∉ e.2 ∧ LF ∉ e.2

/-- The request line without its end. -/
def requestLine (method : HTTPMethod) (query : Str) (version : HTTPVersion) : Str :=
  methodToString method ++ [SP] ++ query ++ [SP] ++ versionToString version

/-- A header line without its end. -/
def headerText (e : Str × Str) : Str := e.1 ++ chars [':', ' '] ++ e.2

theorem not_mem_of_no_space {s : Str} (h : ∀ c ∈ s, isSpace c = false) : CR ∉ s ∧ LF ∉ s :=
  ⟨fun hm => absurd (h _ hm) (by decide), fun hm => absurd (h _ hm) (by decide)⟩

/-- A property of every byte of a string can be evaluated byte by byte. -/
theorem forall_mem_of_all {s : Str} {P : UInt8 → Prop} [DecidablePred P]
    (h : s.all (fun c => decide (P c)) = true) : ∀ c ∈ s, P c :=
  fun c hc => of_decide_eq_true (List.all_eq_true.mp h c hc)

theorem methodToString_word (method : HTTPMethod) :
    methodToString method ≠ [] ∧ ∀ c ∈ methodToString method, isSpace c = false := by
  cases method <;> exact ⟨by decide, forall_mem_of_all (by decide)⟩

theorem versionToString_word (version : HTTPVersion) :
    versionToString version ≠ [] ∧ ∀ c ∈ versionToString version, isSpace c = false := by
  cases version <;> exact ⟨by decide, forall_mem_of_all (by decide)⟩

namespace HTTPHeadersParser

/-- The request line gives back the three words it was made of. -/
theorem parseLine_requestLine {q : HTTPHeadersParser} (hnum : q.lineNum = 1)
    (htype : q.type = .REQUEST) {method : HTTPMethod} {query : Str} {version : HTTPVersion}
    (hquery : GoodQuery query) :
    q.parseLine (requestLine method query version) =
      { q with
        method := methodToString method, action := query, version := versionToString version } := by
  obtain ⟨hmne, hm⟩ := methodToString_word method
  obtain ⟨hvne, hv⟩ := versionToString_word version
  have hsp : isSpace SP = true := by decide
  have h1 : (IStream.ofStr (requestLine method query version)).extractStr q.method =
      (IStream.ofStr (SP :: (query ++ SP :: versionToString version)), methodToString method) := by
    have hsplit : requestLine method query version =
        methodToString method ++ SP :: (query ++ SP :: versionToString version) := by
      simp [requestLine]
    rw [hsplit]
    exact IStream.extractStr_word_cons hmne hm hsp _
  have h2 : (IStream.ofStr (SP :: (query ++ SP :: versionToString version))).extractStr q.action =
      (IStream.ofStr (SP :: versionToString version), query) := by
    rw [IStream.extractStr_skip hsp]
    exact IStream.extractStr_word_cons hquery.1 (fun c hc => (hquery.2 c hc).1) hsp _
  have h3 : ((IStream.ofStr (SP :: versionToString version)).extractStr q.version).2 =
      versionToString version := by
    have hword : (IStream.ofStr (versionToString version ++ [])).extractStr q.version = _ :=
      IStream.extractStr_word hvne hv (by simp) q.version
    rw [List.append_nil] at hword
    rw [IStream.extractStr_skip hsp, hword]
  rw [parseLine, if_pos hnum, htype]
  simp only [h1, h2, h3]

/-- A header line gives back its name and its value. -/
theorem parseLine_headerText {q : HTTPHeadersParser} (hnum : q.lineNum ≠ 1) {e : Str × Str}
    (he : GoodHeader e) :
    q.parseLine (headerText e) = { q with headers := q.headers.insertNew e.1 e.2 } := by
  obtain ⟨hne, hname, hcr, hlf⟩ := he
  have hcolon : chars [':', ' '] = [58, SP] := rfl
  have hkey : ∀ c ∈ e.1 ++ [58], isSpace c = false := by
    intro c hc
    rcases List.mem_append.mp hc with hc | hc
    · exact hname c hc
    · obtain rfl : c = 58 := by simpa using hc
      decide
  have h1 : (IStream.ofStr (headerText e)).extractStr [] =
      (IStream.ofStr (SP :: e.2), e.1 ++ [58]) := by
    have hsplit : headerText e = (e.1 ++ [58]) ++ SP :: e.2 := by simp [headerText, hcolon]
    rw [hsplit]
    exact IStream.extractStr_word_cons (by simp) hkey (by decide) _
  have h2 : ((IStream.ofStr (SP :: e.2)).getline []).2 = SP :: e.2 := by
    have hline : LF ∉ SP :: e.2 := by
      rw [List.mem_cons, not_or]
      exact ⟨by decide, hlf⟩
    rw [IStream.getline_rest (by simp) hline]
  rw [parseLine, if_neg hnum]
  simp only [h1, h2]
  rw [if_neg (by simp)]
  simp

/-- A line that begins with the first byte of a word is no continuation. -/
theorem beginLine_word {q : HTTPHeadersParser} {c : UInt8} (hc : isSpace c = false) :
    q.beginLine c =
      if 0 < q.lineNum then { q.parseLine q.curLine with curLine := [] } else q := by
  have hblank : ¬ (c = SP ∨ c = HT) := by
    rintro (rfl | rfl) <;> exact absurd hc (by decide)
  rw [beginLine, if_neg hblank]

/-- A header line: the line before it is parsed, and it is kept. -/
theorem foldl_headerLine {q : HTTPHeadersParser} (hready : q.ready = false) (hbuf : q.buf = [])
    (hnum : 0 < q.lineNum) {e : Str × Str} (he : GoodHeader e)
    (hlim : q.count + (HTTPHeadersWriter.headerLine e).length < q.limit) :
    (HTTPHeadersWriter.headerLine e).foldl absorb q =
      { q.parseLine q.curLine with
        curLine := headerText e
        buf := []
        count := q.count + (HTTPHeadersWriter.headerLine e).length
        lineNum := (q.parseLine q.curLine).lineNum + 1 } := by
  obtain ⟨hne, hname, hcr, hlf⟩ := he
  obtain ⟨c, s, hcs⟩ := List.exists_cons_of_ne_nil hne
  obtain ⟨hncr, hnlf⟩ := not_mem_of_no_space hname
  have htext : headerText e = c :: (s ++ chars [':', ' '] ++ e.2) := by
    simp [headerText, hcs]
  have hline : HTTPHeadersWriter.headerLine e = c :: (s ++ chars [':', ' '] ++ e.2) ++ crlf := by
    rw [← htext]
    rfl
  have hmem : ∀ b, b ∉ e.1 → b ∉ chars [':', ' '] → b ∉ e.2 →
      b ∉ c :: (s ++ chars [':', ' '] ++ e.2) := by
    intro b h1 h2 h3
    rw [← htext, headerText]
    simp [h1, h2, h3]
  have hc : isSpace c = false := hname c (by simp [hcs])
  rw [hline] at hlim ⊢
  rw [foldl_line hready hbuf hlim (hmem _ hncr (by decide) hcr) (hmem _ hnlf (by decide) hlf),
    beginLine_word hc, if_pos hnum, htext]
  rfl

/-- **The header lines of a block**: each is parsed when the next one begins, so the
last of them is not. -/
theorem foldl_headerLines {es : List (Str × Str)} {q : HTTPHeadersParser} {e : Str × Str}
    (hready : q.ready = false) (hbuf : q.buf = []) (hnum : 2 ≤ q.lineNum)
    (hcur : q.curLine = headerText e) (he : GoodHeader e) (hes : ∀ x ∈ es, GoodHeader x)
    (hlim : q.count + (es.flatMap HTTPHeadersWriter.headerLine).length < q.limit) :
    (es.flatMap HTTPHeadersWriter.headerLine).foldl absorb q =
      { q with
        headers := q.headers.insertAll (e :: es).dropLast
        curLine := headerText ((e :: es).getLast (List.cons_ne_nil e es))
        count := q.count + (es.flatMap HTTPHeadersWriter.headerLine).length
        lineNum := q.lineNum + es.length } := by
  induction es generalizing q e with
  | nil =>
      simp only [List.flatMap_nil, List.foldl_nil, List.dropLast_singleton, SortedMap.insertAll_nil,
        List.getLast_singleton, List.length_nil, ← hcur]
      simp
  | cons x es ih =>
      rw [List.flatMap_cons, List.length_append] at hlim
      have hx := hes x (by simp)
      rw [List.flatMap_cons, List.foldl_append,
        foldl_headerLine hready hbuf (by omega) hx (by omega), hcur,
        parseLine_headerText (by omega) he]
      rw [ih (by exact hready) rfl (by simp only; omega) rfl hx
        (fun y hy => hes y (List.mem_cons_of_mem _ hy)) (by simp only; omega)]
      simp only [List.dropLast_cons_cons, SortedMap.insertAll_cons, List.length_append, ← hbuf,
        List.getLast_cons_cons, List.length_cons]
      congr 1
      · omega
      · omega

/-- The request line is the first line: it is kept, and nothing is parsed. -/
theorem foldl_requestLine {lim : ℤ} {method : HTTPMethod} {query : Str} {version : HTTPVersion}
    (hquery : GoodQuery query)
    (hlim : ((requestLine method query version ++ crlf).length : ℤ) < lim) :
    (requestLine method query version ++ crlf).foldl absorb (fresh .REQUEST lim) =
      { fresh .REQUEST lim with
        curLine := requestLine method query version
        count := (requestLine method query version ++ crlf).length
        lineNum := 1 } := by
  obtain ⟨hmne, hm⟩ := methodToString_word method
  obtain ⟨-, hv⟩ := versionToString_word version
  obtain ⟨c, s, hcs⟩ := List.exists_cons_of_ne_nil hmne
  have htext : requestLine method query version =
      c :: (s ++ [SP] ++ query ++ [SP] ++ versionToString version) := by
    simp [requestLine, hcs]
  have hmem : ∀ b, b ∉ methodToString method → b ≠ SP → b ∉ query →
      b ∉ versionToString version → b ∉ requestLine method query version := by
    intro b h1 h2 h3 h4
    simp [requestLine, h1, h2, h3, h4]
  obtain ⟨hmcr, hmlf⟩ := not_mem_of_no_space hm
  obtain ⟨hvcr, hvlf⟩ := not_mem_of_no_space hv
  obtain ⟨hqcr, hqlf⟩ := not_mem_of_no_space fun c hc => (hquery.2 c hc).1
  have hcr := hmem CR hmcr (by decide) hqcr hvcr
  have hlf := hmem LF hmlf (by decide) hqlf hvlf
  have hc : isSpace c = false := hm c (by simp [hcs])
  rw [htext] at hlim hcr hlf ⊢
  rw [foldl_line rfl rfl (by simpa [fresh] using hlim) hcr hlf, beginLine_word hc]
  simp [fresh]

/-- The parser after the lines of a block, before its empty line. -/
def afterLines (lim : ℤ) (method : HTTPMethod) (query : Str) (version : HTTPVersion)
    (es : List (Str × Str)) : HTTPHeadersParser :=
  (requestLine method query version ++ crlf ++ es.flatMap HTTPHeadersWriter.headerLine).foldl absorb
    (fresh .REQUEST lim)

section Block

variable {lim : ℤ} {method : HTTPMethod} {query : Str} {version : HTTPVersion}
  {es : List (Str × Str)}

variable (lim method version) in
/-- **What the lines of a block leave**: nothing is parsed of a block without headers,
and everything but the last header of any other. -/
theorem afterLines_eq (hquery : GoodQuery query) (hes : ∀ e ∈ es, GoodHeader e)
    (hlim : ((requestLine method query version ++ crlf ++
      es.flatMap HTTPHeadersWriter.headerLine).length : ℤ) < lim) :
    ∃ cur n, afterLines lim method query version es =
      { fresh .REQUEST lim with
        method := if es = [] then [] else methodToString method
        action := if es = [] then [] else query
        version := if es = [] then [] else versionToString version
        headers := SortedMap.empty.insertAll es.dropLast
        curLine := cur
        count := (requestLine method query version ++ crlf ++
          es.flatMap HTTPHeadersWriter.headerLine).length
        lineNum := n } := by
  have hfirst : ((requestLine method query version ++ crlf).length : ℤ) < lim := by
    rw [List.length_append] at hlim
    omega
  rw [afterLines, List.foldl_append, foldl_requestLine hquery hfirst]
  cases es with
  | nil => exact ⟨requestLine method query version, 1, by simp [fresh]⟩
  | cons e es =>
      have he := hes e (by simp)
      rw [List.flatMap_cons, ← List.append_assoc, List.length_append, List.length_append] at hlim
      rw [List.flatMap_cons, List.foldl_append,
        foldl_headerLine rfl rfl (show (0 : ℤ) < 1 by decide) he (by simp only [fresh]; omega),
        parseLine_requestLine rfl rfl hquery]
      rw [foldl_headerLines rfl rfl (show (2 : ℤ) ≤ 1 + 1 by decide) rfl he
        (fun x hx => hes x (List.mem_cons_of_mem _ hx)) (by simp only [fresh]; omega)]
      refine ⟨headerText ((e :: es).getLast (List.cons_ne_nil e es)), 1 + 1 + es.length, ?_⟩
      simp only [fresh, reduceCtorEq, if_false]
      congr 1
      simp only [List.length_append]
      omega

/-- No byte string that is a proper prefix of a block has an empty line. -/
theorem not_endsEmptyLine_of_prefix (hquery : GoodQuery query) (hes : ∀ e ∈ es, GoodHeader e)
    {pre : List UInt8} (hpre : pre <+: requestLine method query version ++ crlf ++
      es.flatMap HTTPHeadersWriter.headerLine ++ crlf)
    (hne : pre ≠ requestLine method query version ++ crlf ++
      es.flatMap HTTPHeadersWriter.headerLine ++ crlf) : ¬ EndsEmptyLine pre := by
  intro hempty
  -- a parser whose limit is out of reach would be ready one byte before the end
  generalize hlines : requestLine method query version ++ crlf ++
    es.flatMap HTTPHeadersWriter.headerLine = lines at hpre hne
  have hsplit : lines ++ crlf = lines ++ [CR] ++ [LF] := by simp [crlf]
  rw [hsplit] at hpre hne
  have hcut : pre <+: lines ++ [CR] := by
    rcases List.prefix_concat_iff.mp hpre with h | h
    · exact absurd h hne
    · exact h
  obtain ⟨cur, n, hq⟩ := afterLines_eq (lines.length + 2) method version hquery hes
    (by rw [hlines]; omega)
  rw [afterLines, hlines] at hq
  have hend : ((lines ++ [CR]).foldl absorb (fresh .REQUEST (lines.length + 2))).ready = false := by
    rw [List.foldl_append, hq]
    exact congrArg ready (absorb_cr rfl (by simp only [fresh]; omega))
  have hlen := hcut.length_le
  rw [List.length_append, List.length_singleton] at hlen
  have hready := ready_mono hcut
    (ready_of_endsEmptyLine (lines.length + 2) .REQUEST hempty (by omega))
  rw [hend] at hready
  simp at hready

/-- **What a fresh parser makes of a block of the writer**: it is ready, and has parsed
every line but the last. -/
theorem write_block (hquery : GoodQuery query) (hes : ∀ e ∈ es, GoodHeader e)
    (hlim : ((requestLine method query version ++ crlf ++
      es.flatMap HTTPHeadersWriter.headerLine ++ crlf).length : ℤ) < lim) :
    ((fresh .REQUEST lim).write (requestLine method query version ++ crlf ++
      es.flatMap HTTPHeadersWriter.headerLine ++ crlf)).1.visible =
    (true, if es = [] then [] else methodToString method, if es = [] then [] else query,
      if es = [] then [] else versionToString version, 0, [],
      SortedMap.empty.insertAll es.dropLast) := by
  rw [List.length_append] at hlim
  have hcrlf : crlf.length = 2 := rfl
  obtain ⟨cur, n, hq⟩ := afterLines_eq lim method version hquery hes (by omega)
  rw [afterLines] at hq
  rw [write_eq_consume _ _ rfl, ← visible_view, absorbs.view_consume rfl, view_fresh _ (by omega),
    List.foldl_append, hq, foldl_crlf rfl rfl (by simp only [fresh]; omega)]
  rfl

end Block

/-- A parser has got back what was written. -/
def RoundTrips (self : HTTPHeadersParser) (method : HTTPMethod) (query : Str)
    (version : HTTPVersion) (headers : HeaderMap) : Prop :=
  self.ready = true ∧ self.method = methodToString method ∧ self.action = query ∧
    self.version = versionToString version ∧ self.headers = headers

instance (self : HTTPHeadersParser) (method : HTTPMethod) (query : Str) (version : HTTPVersion)
    (headers : HeaderMap) : Decidable (self.RoundTrips method query version headers) :=
  inferInstanceAs (Decidable (_ ∧ _))

/-- **No request makes the round trip.**  Whatever the method, the query, the version and
the headers: the block the writer yields, fed to a fresh parser with a larger limit,
does not come back as it was written. -/
theorem never_round_trips {method : HTTPMethod} {query : Str} {version : HTTPVersion}
    {headers : List (Str × Str)} {lim : ℤ} {block : List UInt8}
    (hquery : GoodQuery query) (hheaders : ∀ e ∈ headers, GoodHeader e)
    (hblock : ((HTTPHeadersWriter.fresh.setRequest method query version).addHeaders
      headers).getData.2 = .ok block) (hlim : (block.length : ℤ) < lim) :
    ¬ ((fresh .REQUEST lim).write block).1.RoundTrips method query version
      (SortedMap.empty.insertAll headers) := by
  rw [HTTPHeadersWriter.addHeaders_eq] at hblock
  change (HTTPHeadersWriter.getData ⟨requestLine method query version ++ crlf,
    SortedMap.empty.insertAll headers⟩).2 = .ok block at hblock
  generalize hmap : (SortedMap.empty.insertAll headers : HeaderMap) = map at *
  have hes : ∀ e ∈ map.entries, GoodHeader e := by
    intro e he
    rw [← hmap] at he
    rcases SortedMap.mem_insertAll he with h | h
    · simp at h
    · exact hheaders e h
  have htext : HTTPHeadersWriter.text ⟨requestLine method query version ++ crlf, map⟩ =
      requestLine method query version ++ crlf ++
        map.entries.flatMap HTTPHeadersWriter.headerLine ++ crlf := rfl
  have hpre : block <+: requestLine method query version ++ crlf ++
      map.entries.flatMap HTTPHeadersWriter.headerLine ++ crlf := by
    rw [← htext]
    exact HTTPHeadersWriter.block_of_getData hblock
  rintro ⟨hready, hmethod, -, -, hhead⟩
  by_cases hfull : block = requestLine method query version ++ crlf ++
      map.entries.flatMap HTTPHeadersWriter.headerLine ++ crlf
  · -- the whole text: the last line is missing
    subst hfull
    have hvis := write_block hquery hes hlim
    by_cases hnil : map.entries = []
    · have hgot := congrArg (·.2.1) hvis
      simp only [visible, hnil, if_true] at hgot
      rw [hnil] at hmethod
      rw [hgot] at hmethod
      exact (methodToString_word method).1 hmethod.symm
    · have hgot := congrArg (·.2.2.2.2.2.2) hvis
      simp only [visible] at hgot
      rw [hhead] at hgot
      have hsorted : ((SortedMap.empty : HeaderMap).entries ++ map.entries.dropLast).Pairwise
          fun a b => StrLess a.1 b.1 :=
        List.Pairwise.sublist (List.dropLast_sublist _) map.sorted
      have hentries := congrArg (·.entries.length) hgot
      simp only [SortedMap.entries_insertAll hsorted, SortedMap.entries_empty, List.nil_append,
        List.length_dropLast] at hentries
      have hpos := List.length_pos_of_ne_nil hnil
      omega
  · -- a size that does not fit an `int` cut the block short: there is no empty line in it
    obtain ⟨used, hused, hfirst⟩ := write_ready .REQUEST lim hready
    have hsub : used <+: block := ⟨_, hused.symm⟩
    refine not_endsEmptyLine_of_prefix hquery hes (hsub.trans hpre) (fun heq => ?_) hfirst.1
    have hlen := hsub.length_le
    rw [heq] at hlen
    exact hfull (hpre.eq_of_length_le hlen)

/-- The query `/a`. -/
def exampleQuery : Str := chars ['/', 'a']

/-- The header `A: b`. -/
def exampleHeader : Str × Str := (chars ['A'], chars ['b'])

theorem exampleQuery_good : GoodQuery exampleQuery := ⟨by decide, forall_mem_of_all (by decide)⟩

theorem exampleHeader_good : GoodHeader exampleHeader :=
  ⟨by decide, forall_mem_of_all (by decide), by decide, by decide⟩

/-- A request with two headers does not make the round trip. -/
theorem never_round_trips_example :
    ¬ ((fresh .REQUEST defaultLimit).write (requestLine .GET exampleQuery .HTTP_1_1 ++ crlf ++
      chars ['A', ':', ' ', 'b'] ++ crlf ++ chars ['B', ':', ' '] ++ crlf ++ crlf)).1.RoundTrips
        .GET exampleQuery .HTTP_1_1
        (SortedMap.empty.insertAll [exampleHeader, (chars ['B'], chars [])]) := by
  have hheaders : ∀ e ∈ [exampleHeader, (chars ['B'], chars [])], GoodHeader e := by
    intro e he
    rcases List.mem_cons.mp he with rfl | he
    · exact exampleHeader_good
    · obtain rfl : e = (chars ['B'], chars []) := by simpa using he
      exact ⟨by decide, forall_mem_of_all (by decide), by decide, by decide⟩
  exact never_round_trips exampleQuery_good hheaders (by decide) (by decide)

/-- `GET /a HTTP/1.1` with the one header `A: b`: the parser is ready and has no header. -/
theorem single_header_lost : ∃ block,
    ((HTTPHeadersWriter.fresh.setRequest .GET exampleQuery .HTTP_1_1).addHeaders
      [exampleHeader]).getData.2 = .ok block ∧
    (block.length : ℤ) < defaultLimit ∧
    ((fresh .REQUEST defaultLimit).write block).1.ready = true ∧
    ((fresh .REQUEST defaultLimit).write block).1.headers = .empty ∧
    ¬ ((fresh .REQUEST defaultLimit).write block).1.RoundTrips .GET exampleQuery .HTTP_1_1
      (SortedMap.empty.insertAll [exampleHeader]) := by
  refine ⟨requestLine .GET exampleQuery .HTTP_1_1 ++ crlf ++ chars ['A', ':', ' ', 'b'] ++ crlf ++
    crlf, ?_, ?_, ?_, ?_, ?_⟩ <;> decide

end HTTPHeadersParser

end Craplib
