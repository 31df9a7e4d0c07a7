import Cask.Http.Chunks
import Cask.Http.Text

/-! # The header block of an accepted request

The lines of an accepted request: its request line, its header lines and the blank line that
ends them.  The header loop has a second exit, at `MAX_HEADERS` headers, which does not look
for the blank line; and the number it takes from `Content-Length` is what `strtol` makes of
the text, narrowed to `int`.
-/

namespace Cask.Http

open Storage

/-- The headers are those of consecutive lines of the received bytes, from `start` to `stop`. -/
def HeaderLines (buf : Buffer) : Nat → List HttpHeader → Nat → Prop
  | start, [], stop => start = stop
  | start, header :: headers, stop =>
    ∃ len, span buf.data lf buf.size start = some len ∧
      parseHeader buf.data start len = some header ∧
      HeaderLines buf (start + len) headers stop

variable {buf : Buffer} {req q : Request} {start stop : Nat} {headers : List HttpHeader}

theorem HeaderLines.snoc {header : HttpHeader} {len : Nat}
    (lines : HeaderLines buf start headers stop) (line : span buf.data lf buf.size stop = some len)
    (parsed : parseHeader buf.data stop len = some header) :
    HeaderLines buf start (headers ++ [header]) (stop + len) := by
  induction headers generalizing start with
  | nil =>
    obtain rfl : start = stop := lines
    exact ⟨len, line, parsed, rfl⟩
  | cons first headers ih =>
    obtain ⟨firstLen, firstLine, firstParsed, rest⟩ := lines
    exact ⟨firstLen, firstLine, firstParsed, ih rest⟩

/-- A blank line has no colon. -/
theorem parseHeader_blank {pos len : Nat} (blank : atBlankLine buf.data pos = true)
    (line : span buf.data lf buf.size pos = some len) : parseHeader buf.data pos len = none := by
  obtain ⟨first, second⟩ := atBlankLine_iff.mp blank
  obtain ⟨positive, fits, last, earlier⟩ := span_some.mp line
  have short : ¬ 2 < len := fun long => earlier (pos + 1) (by omega) (by omega) second
  have longer : len ≠ 1 := by
    rintro rfl
    rw [Nat.add_sub_cancel, first] at last
    exact absurd last (by decide)
  obtain rfl : len = 2 := by omega
  have whole : split buf.data pos 2 (asInt pos) 58 2 = [⟨asInt pos, 2⟩] := by
    rw [split, show (2 : Nat) = 0 + 2 by rfl, splitLoop_skip fun i bound => ?_]
    · simp [splitLoop]
    · have here : i = 0 ∨ i = 1 := by omega
      rcases here with rfl | rfl
      · rw [Nat.add_zero, first]
        decide
      · rw [Nat.zero_add, second]
        decide
  rw [parseHeader, whole]

/-- The scan reads consecutive lines, and stops behind a blank line or at the header limit. -/
theorem scan_lines {left : Nat} (lines : HeaderLines buf start req.headers req.readBytes)
    (done : scan buf left req = (.ok, q)) :
    ∃ stop, HeaderLines buf start q.headers stop ∧
      ((Blank buf stop ∧ q.readBytes = stop + 2 ∧ q.headers.length < req.headers.length + left) ∨
        (q.readBytes = stop ∧ q.headers.length = req.headers.length + left)) := by
  induction left generalizing req with
  | zero =>
    cases done
    exact ⟨_, lines, .inr ⟨rfl, rfl⟩⟩
  | succ left ih =>
    rcases line_cases buf req.readBytes with
      blank | ⟨notBlank, far⟩ | ⟨notBlank, near, line⟩ | ⟨lineLen, notBlank, near, line, bound⟩
    · rw [scan_blank blank] at done
      cases done
      exact ⟨_, lines, .inl ⟨blank, rfl, by dsimp only; omega⟩⟩
    · rw [scan_far notBlank far] at done
      have code := congrArg Prod.fst done
      rcases farCode_cases buf req.readBytes with uf | trap
      · rw [uf] at code
        cases code
      · rw [trap] at code
        cases code
    · rw [scan_stuck notBlank near line] at done
      cases done
    · rw [scan_line notBlank near line] at done
      cases parsed : parseHeader buf.data req.readBytes lineLen with
      | none =>
        rw [parsed] at done
        cases done
      | some header =>
        rw [parsed] at done
        -- one more line belongs to the block
        have whole : span buf.data lf buf.size req.readBytes = some lineLen :=
          span_mono (fun _ _ => rfl) (seen_le buf) line
        obtain ⟨stop, lines', ends⟩ := ih (lines.snoc whole parsed) done
        refine ⟨stop, lines', ?_⟩
        simp only [Request.push, List.length_append, List.length_singleton] at ends
        rcases ends with ⟨blank, position, count⟩ | ⟨position, count⟩
        · exact .inl ⟨blank, position, by omega⟩
        · exact .inr ⟨position, by omega⟩

/-- Two readings of the same lines: the shorter one is a beginning of the longer one, which goes
on with a line that is not blank. -/
theorem HeaderLines.compare {headers' : List HttpHeader} {stop' : Nat}
    (lines : HeaderLines buf start headers stop) (lines' : HeaderLines buf start headers' stop')
    (fewer : headers.length ≤ headers'.length) :
    (headers = headers' ∧ stop = stop') ∨
      (headers.length < headers'.length ∧ ¬ Blank buf stop) := by
  induction headers generalizing start headers' with
  | nil =>
    obtain rfl : start = stop := lines
    cases headers' with
    | nil => exact .inl ⟨rfl, lines'⟩
    | cons header headers' =>
      obtain ⟨len, line, parsed, -⟩ := lines'
      refine .inr ⟨by simp, fun blank => ?_⟩
      rw [parseHeader_blank blank.2 line] at parsed
      cases parsed
  | cons header headers ih =>
    cases headers' with
    | nil => simp at fewer
    | cons header' headers' =>
      obtain ⟨len, line, parsed, rest⟩ := lines
      obtain ⟨len', line', parsed', rest'⟩ := lines'
      rw [line] at line'
      cases line'
      rw [parsed] at parsed'
      cases parsed'
      rcases ih rest rest' (by simpa using fewer) with ⟨rfl, rfl⟩ | ⟨less, notBlank⟩
      · exact .inl ⟨rfl, rfl⟩
      · exact .inr ⟨by simpa using less, notBlank⟩

/-! ## Where the header block ends -/

/-- The request line, then the header lines of the request, then a blank line; a body starts
right behind it. -/
def EndsAtBlankLine (buf : Buffer) (q : Request) : Prop :=
  ∃ line stop, span buf.data lf buf.size 0 = some line ∧ HeaderLines buf line q.headers stop ∧
    Blank buf stop ∧
    ((findHeader q contentLength buf).isSome → q.body.off = stop + 2)

/-- No header of the list announces a body. -/
def NoLength (buf : Buffer) (headers : List HttpHeader) : Prop :=
  ∀ header ∈ headers, isNamed buf.data header.key contentLength = false

/-- The received bytes hold a request line, fewer than `MAX_HEADERS` header lines and a blank
line, or exactly `MAX_HEADERS` of them without a `Content-Length`.  A body starts below 2 GiB. -/
def FewHeaders (buf : Buffer) : Prop :=
  ∃ line headers stop, span buf.data lf buf.size 0 = some line ∧ HeaderLines buf line headers stop ∧
    Blank buf stop ∧
    ((headers.length < maxHeaders ∧ (stop + 2 < 2 ^ 31 ∨ NoLength buf headers)) ∨
      (headers.length = maxHeaders ∧ NoLength buf headers))

theorem findHeader_isSome_iff :
    (findHeader q contentLength buf).isSome ↔ ¬ NoLength buf q.headers := by
  rw [findHeader, List.find?_isSome, NoLength]
  simp

theorem startBody_ok (ok : startBody req buf = (.ok, q)) :
    q.headers = req.headers ∧ ∀ cl, findHeader req contentLength buf = some cl →
      ∃ len, announced buf.data cl = some len ∧ q.body = ⟨asInt req.readBytes, len⟩ := by
  have kept : ∀ x : Request, parseBody x buf = (.ok, q) → q.headers = x.headers ∧
    q.body = x.body := by
    intro x same
    rcases parseBody_cases x buf with ⟨-, same'⟩ | ⟨-, -, same'⟩ | ⟨-, -, same'⟩
    all_goals
      rw [same'] at same
      cases same
    · exact ⟨rfl, rfl⟩
    · exact ⟨rfl, rfl⟩
  cases found : findHeader req contentLength buf with
  | none =>
    rw [startBody_none found] at ok
    exact ⟨(kept _ ok).1, fun cl wrong => by cases wrong⟩
  | some cl =>
    cases length : announced buf.data cl with
    | none =>
      rw [startBody_rejected found length] at ok
      cases ok
    | some len =>
      rw [startBody_accepted found length] at ok
      obtain ⟨headers, body⟩ := kept _ ok
      refine ⟨headers, fun cl' same => ?_⟩
      cases same
      exact ⟨len, length, body⟩

/-- A call that completes the header block has scanned it from the end of the request line. -/
theorem headersDone_scan (zero : ZeroPast buf) (done : headersDone zeroed buf = some q) :
    ∃ x, span buf.data lf buf.size 0 = some x.readBytes ∧ x.headers = [] ∧
      scan buf maxHeaders x = (.ok, q) := by
  rcases enter_cases (.inl rfl) (.zeroed buf.size) with
    ⟨code, which, entered⟩ | ⟨x, entered, state, soundx, -, -⟩
  · have notOk : code ≠ .ok := by rcases which with rfl | rfl <;> decide
    rw [headersDone_not_entered notOk entered] at done
    cases done
  · obtain ⟨line, empty⟩ := enter_line rfl entered
    refine ⟨x, span_mono (fun _ _ => rfl) (seen_le buf) line, empty, ?_⟩
    cases result : parseHeaders x buf with
    | mk code r =>
      by_cases ok : code = .ok
      · subst ok
        rw [headersDone_ok entered state result] at done
        cases done
        rw [parseHeaders_zero zero soundx, empty] at result
        exact result
      · rw [headersDone_not_ok entered state ok result] at done
        cases done

/-- The lines of a request whose header block is complete. -/
theorem headersDone_lines (zero : ZeroPast buf) (done : headersDone zeroed buf = some q) :
    ∃ line stop, span buf.data lf buf.size 0 = some line ∧ HeaderLines buf line q.headers stop ∧
      ((Blank buf stop ∧ q.readBytes = stop + 2 ∧ q.headers.length < maxHeaders) ∨
        (q.readBytes = stop ∧ q.headers.length = maxHeaders)) := by
  obtain ⟨x, line, empty, scanned⟩ := headersDone_scan zero done
  have lines : HeaderLines buf x.readBytes x.headers x.readBytes := by rw [empty]; rfl
  obtain ⟨stop, lines', ends⟩ := scan_lines lines scanned
  rw [empty] at ends
  exact ⟨x.readBytes, stop, line, lines', by simpa using ends⟩

/-- The header block of an accepted request ends at its blank line exactly when it has few enough
header lines. -/
theorem endsAtBlankLine_iff (zero : ZeroPast buf) (ok : parseRequest zeroed buf = (.ok, q)) :
    EndsAtBlankLine buf q ↔ FewHeaders buf := by
  rcases parseRequest_open_cases (.inl rfl) (.zeroed buf.size) with
    ⟨-, code, r, notOk, same, -⟩ | ⟨r, done, same, -⟩
  · rw [same] at ok
    exact absurd (congrArg Prod.fst ok) notOk
  rw [same] at ok
  obtain ⟨headers, bodies⟩ := startBody_ok ok
  obtain ⟨line, stop, request, lines, ends⟩ := headersDone_lines zero done
  have sameFind : findHeader q contentLength buf = findHeader r contentLength buf := by
    rw [findHeader, findHeader, headers]
  have offset : (findHeader q contentLength buf).isSome → q.body.off = asInt r.readBytes := by
    intro some
    obtain ⟨cl, found⟩ := Option.isSome_iff_exists.mp some
    obtain ⟨len, -, body⟩ := bodies cl (sameFind ▸ found)
    rw [body]
  have named : (findHeader q contentLength buf).isSome ↔ ¬ NoLength buf r.headers := by
    rw [findHeader_isSome_iff, headers]
  constructor
  · rintro ⟨line', stop', request', lines', blank', start⟩
    rw [request] at request'
    cases request'
    rw [headers] at lines'
    obtain rfl : stop = stop' := by
      rcases lines.compare lines' (Nat.le_refl _) with ⟨-, same⟩ | ⟨less, -⟩
      · exact same
      · exact absurd less (Nat.lt_irrefl _)
    refine ⟨line, r.headers, stop, request, lines, blank', ?_⟩
    rcases ends with ⟨-, position, count⟩ | ⟨position, count⟩
    · refine .inl ⟨count, ?_⟩
      by_cases absent : NoLength buf r.headers
      · exact .inr absent
      · have some := named.mpr absent
        have kept : asInt (stop + 2 : Nat) = (stop + 2 : Nat) := by
          rw [← position, ← offset some, start some, position]
          rfl
        exact .inl (asInt_eq_nat.mp kept)
    · refine .inr ⟨count, ?_⟩
      by_contra absent
      have some := named.mpr absent
      have low := asInt_nat_le stop
      rw [← position, ← offset some, start some] at low
      omega
  · rintro ⟨line', headers', stop', request', lines', blank', few⟩
    rw [request] at request'
    cases request'
    -- the lines of the condition are the lines that were read
    have sameLines : r.headers = headers' ∧ stop = stop' := by
      rcases Nat.le_total r.headers.length headers'.length with fewer | more
      · rcases lines.compare lines' fewer with same | ⟨less, notBlank⟩
        · exact same
        · rcases ends with ⟨blank, -⟩ | ⟨-, count⟩
          · exact absurd blank notBlank
          · rcases few with ⟨fewer', -⟩ | ⟨limit, -⟩ <;> omega
      · rcases lines'.compare lines more with ⟨same, stops⟩ | ⟨-, notBlank⟩
        · exact ⟨same.symm, stops.symm⟩
        · exact absurd blank' notBlank
    obtain ⟨rfl, rfl⟩ := sameLines
    refine ⟨line, stop, request, headers ▸ lines, blank', fun some => ?_⟩
    have present := named.mp some
    rw [offset some]
    rcases few with ⟨fewer, small | absent⟩ | ⟨-, absent⟩
    · rcases ends with ⟨-, position, -⟩ | ⟨-, count⟩
      · rw [position, asInt_nat small]
        rfl
      · omega
    · exact absurd absent present
    · exact absurd absent present

/-- A request with one header. -/
def oneHeader : Buffer := .holding (ascii "GET / HTTP/1.1\r\na:b\r\n\r\n") []

theorem endsAtBlankLine_iff_one_header :
    EndsAtBlankLine oneHeader (parseRequest zeroed oneHeader).2 := by
  have few : FewHeaders oneHeader :=
    ⟨16, [⟨⟨16, 1⟩, ⟨18, 1⟩⟩], 21, by decide +kernel,
      ⟨5, by decide +kernel, by decide +kernel, rfl⟩,
      ⟨by decide +kernel, by decide +kernel⟩, .inl ⟨by decide, .inl (by decide)⟩⟩
  have ok : (parseRequest zeroed oneHeader).1 = .ok := by decide +kernel
  exact (endsAtBlankLine_iff (holding_zeroPast _) (Prod.ext ok rfl)).mpr few

/-- A `Content-Length` and 31 other headers, a blank line and two bytes of body. -/
def manyHeaders : Buffer :=
  .holding (ascii "POST / HTTP/1.1\r\nContent-Length: 2\r\n" ++ (List.replicate 31 (ascii "a:b\r\n")).flatten ++
    ascii "\r\nhi") []

/-- The blank line behind the last header that fits is taken for the body. -/
theorem not_endsAtBlankLine_many_headers :
    ZeroPast manyHeaders ∧ (parseRequest zeroed manyHeaders).1 = .ok ∧
      text manyHeaders.data (parseRequest zeroed manyHeaders).2.body = [cr, lf] ∧
      ¬ EndsAtBlankLine manyHeaders (parseRequest zeroed manyHeaders).2 := by
  have zero : ZeroPast manyHeaders := holding_zeroPast _
  have facts : (parseRequest zeroed manyHeaders).1 = .ok ∧
      text manyHeaders.data (parseRequest zeroed manyHeaders).2.body = [cr, lf] ∧
      (parseRequest zeroed manyHeaders).2.body = ⟨191, 2⟩ ∧
      (findHeader (parseRequest zeroed manyHeaders).2 contentLength manyHeaders).isSome = true ∧
      (parseRequest zeroed manyHeaders).2.headers.length = maxHeaders ∧
      headersDone zeroed manyHeaders =
        some { (parseRequest zeroed manyHeaders).2 with state := .headers, body := ⟨0, 0⟩, readBytes := 191 } := by
    decide +kernel
  obtain ⟨ok, read, body, present, limit, done⟩ := facts
  refine ⟨zero, ok, read, ?_⟩
  generalize (parseRequest zeroed manyHeaders).2 = q at body present done limit
  rintro ⟨line, stop, request, lines, -, start⟩
  obtain ⟨line', stop', request', lines', ends⟩ := headersDone_lines zero done
  rw [request] at request'
  cases request'
  have offset := start present
  rw [body] at offset
  dsimp only at lines' ends offset
  rcases ends with ⟨-, -, fewer⟩ | ⟨position, -⟩
  · omega
  · rcases lines.compare lines' (Nat.le_refl _) with ⟨-, same⟩ | ⟨less, -⟩
    · omega
    · exact absurd less (Nat.lt_irrefl _)

end Cask.Http
