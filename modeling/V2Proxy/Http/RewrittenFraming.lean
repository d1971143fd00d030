/-
# The framing of a rewritten request

`limit_resource` writes the granted count into a request and erases 32 bytes for it, and
`Content-Length` stays as it is.  A count is one digit, since no more than two invocations
are ever granted.  So a count in the body keeps the request framed just if it is one byte
long and the last one of the body: otherwise the parser waits for bytes that are missing,
or leaves bytes over.  A count in the head takes with it whatever line ends the 32 bytes
have; then the request is framed just if what is left goes on as a head (`framed_iff`).
-/

import V2Proxy.Http.GrantedInvocations
import V2Proxy.Http.RequestGrammar

namespace V2Proxy

open Foundations HTTPMessageSequence HTTPRequest

/-! ### The length that the headers give -/

/-- The header has the length of the body. -/
def HTTPHeader.isLength (header : HTTPHeader) : Bool :=
  equivalentStrings header.key (ascii "Content-Length")

/-- The first `Content-Length` gives a body of `n` bytes. -/
def LengthIs (headers : List HTTPHeader) (n : ℕ) : Prop :=
  ∃ header z, headers.find? HTTPHeader.isLength = some header ∧ myatoi header.value 10 = .ok z ∧
    toUInt64 z = n

/-- **The length of a POST request** is its first `Content-Length`. -/
theorem sizedBy_iff {firstLine : Bytes} {headers : List HTTPHeader} {n : ℕ}
    (hpost : firstLine.take 5 = ascii "POST ") :
    SizedBy firstLine headers n ↔ LengthIs headers n := by
  have hvalue : ∀ header, headers.find? HTTPHeader.isLength = some header →
      (ofHead firstLine headers).getHeaderValue (ascii "Content-Length") = .ok header.value := by
    intro header hfind
    have hfind' : (ofHead firstLine headers).headers.find?
        (fun header => equivalentStrings header.key (ascii "Content-Length")) = some header := hfind
    rw [HTTPMessage.getHeaderValue, hfind']
  constructor
  · intro h
    rcases hfind : headers.find? HTTPHeader.isLength with _ | header
    · have hhas : (ofHead firstLine headers).hasHeader (ascii "Content-Length") = false := by
        rw [HTTPMessage.hasHeader, List.any_eq_false]
        exact List.find?_eq_none.1 hfind
      rw [SizedBy, doneWithHeaders_post headers hpost, if_pos hhas] at h
      cases h
    · have hdone := ByContentLength.done ⟨hpost, hvalue header hfind⟩
      rw [SizedBy, hdone] at h
      obtain ⟨z, hz, h⟩ := bind_eq_ok.1 h
      have hsize := congrArg (fun m : HTTPRequest => m.expectedBodySize.2) (Except.ok.inj h)
      exact ⟨header, z, hfind, hz, hsize⟩
  · rintro ⟨header, z, hfind, hz, rfl⟩
    rw [SizedBy, ByContentLength.done ⟨hpost, hvalue header hfind⟩, hz, ok_bind]

/-- A header that is not read for the length changes nothing. -/
theorem lengthIs_insert {before after : List HTTPHeader} {header : HTTPHeader} {n : ℕ}
    (h : (before.find? HTTPHeader.isLength).isSome ∨ header.isLength = false) :
    LengthIs (before ++ header :: after) n ↔ LengthIs (before ++ after) n := by
  rw [LengthIs, LengthIs, List.find?_append, List.find?_append]
  rcases hfind : before.find? HTTPHeader.isLength with _ | first
  · rw [hfind] at h
    have hnot : header.isLength = false := h.resolve_left (by decide)
    rw [List.find?_cons_of_neg (by rw [hnot]; decide)]
  · rfl

/-! ### Lines -/

/-- A text of which nothing is a line end. -/
theorem find_CRLF_between {u v t : Bytes} (hv : v ≠ []) (hvc : ∀ c ∈ CRLF, c ∉ v)
    (hu : find CRLF u = none) (ht : find CRLF t = none) : find CRLF (u ++ (v ++ t)) = none := by
  refine find_eq_none_iff.2 fun hinfix => ?_
  rcases infix_append_cases hv hvc hinfix with h | h
  · exact find_eq_none_iff.1 hu h
  · exact find_eq_none_iff.1 ht h

/-- **The first line of a text that begins with a part of a line.** -/
theorem append_eq_line_iff {u v left line w : Bytes} (hv : v ≠ []) (hvc : ∀ c ∈ CRLF, c ∉ v)
    (hu : find CRLF u = none) :
    u ++ (v ++ left) = line ++ (CRLF ++ w) ∧ find CRLF line = none ↔
      ∃ rest, line = u ++ (v ++ rest) ∧ left = rest ++ (CRLF ++ w) ∧ find CRLF rest = none := by
  have hstart : find CRLF (u ++ v) = none := by
    have hnil := find_CRLF_between hv hvc hu (t := []) (by decide)
    rwa [List.append_nil] at hnil
  constructor
  · rintro ⟨heq, hline⟩
    have hline_rest : ∀ rest, line = (u ++ v) ++ rest → find CRLF rest = none := by
      rintro rest rfl
      exact find_eq_none_of_infix hline (List.suffix_append _ _).isInfix
    rw [← List.append_assoc] at heq
    rcases List.append_eq_append_iff.1 heq with ⟨rest, hrest, hleft⟩ | ⟨beyond, hbeyond, hleft⟩
    · exact ⟨rest, by rw [hrest, List.append_assoc], hleft, hline_rest rest hrest⟩
    · rcases beyond with _ | ⟨x, _ | ⟨y, beyond⟩⟩
      · rw [List.append_nil] at hbeyond
        exact ⟨[], by rw [List.append_nil, hbeyond], hleft.symm, by decide⟩
      · -- the line end would begin with the last byte of the part
        have hx : x = 13 := (List.cons.inj hleft).1.symm
        have hlast : (u ++ v).getLast? = some x := by rw [hbeyond, List.getLast?_append]; rfl
        rw [List.getLast?_append_of_ne_nil _ hv] at hlast
        exact absurd (hx ▸ List.mem_of_getLast? hlast) (hvc 13 (by decide))
      · obtain ⟨hx, hy⟩ := List.cons.inj hleft
        have hy := (List.cons.inj hy).1
        refine absurd ⟨line, beyond, ?_⟩ (find_eq_none_iff.1 hstart)
        rw [hbeyond, ← hx, ← hy, List.append_assoc]
        rfl
  · rintro ⟨rest, rfl, rfl, hrest⟩
    exact ⟨by simp only [List.append_assoc], find_CRLF_between hv hvc hu hrest⟩

/-- **Where a pattern without line ends stands:** in the first line, or behind it. -/
theorem cut_line {pat line w : Bytes} {i : ℕ} (hpat : pat ≠ []) (hpatc : ∀ c ∈ CRLF, c ∉ pat)
    (h : pat <+: (line ++ (CRLF ++ w)).drop i) :
    i + pat.length ≤ line.length ∨ line.length + 2 ≤ i := by
  have hshared : ∀ c ∈ pat, c ∉ CRLF := fun c hc hcrlf => hpatc c hcrlf hc
  exact prefix_drop_cases hpat (by decide) hshared h

/-- A head goes on here: the rest of a line, header lines, an empty line and a body. -/
def GoesOn (left rest : Bytes) (headers : List HTTPHeader) (body : Bytes) : Prop :=
  ∃ text, left = rest ++ (CRLF ++ text) ∧ find CRLF rest = none ∧
    HeaderLines text headers (CRLF ++ body)

namespace HeaderLines

variable {w u v left tail body : Bytes} {headers : List HTTPHeader}

/-- **A head that begins with a part of a line** goes on from there. -/
theorem begun_iff (hv : v ≠ []) (hvc : ∀ c ∈ CRLF, c ∉ v) (hu : find CRLF u = none) :
    HeaderLines (u ++ (v ++ left)) headers (CRLF ++ body) ↔
      ∃ rest header headers', GoesOn left rest headers' body ∧
        HTTPHeader.parse (u ++ (v ++ rest)) = .ok header ∧ headers = header :: headers' := by
  constructor
  · intro h
    generalize hw : u ++ (v ++ left) = w at h
    generalize htail : CRLF ++ body = tail at h
    cases h with
    | done =>
        -- no part of an empty line
        rw [← htail, ← List.nil_append (CRLF ++ body)] at hw
        obtain ⟨rest, hnil, -⟩ := (append_eq_line_iff hv hvc hu).1 ⟨hw, by decide⟩
        rw [← List.append_assoc, eq_comm, List.append_eq_nil_iff, List.append_eq_nil_iff] at hnil
        exact absurd hnil.1.2 hv
    | line hline hlines =>
        obtain ⟨rest, rfl, hleft, hrest⟩ := (append_eq_line_iff hv hvc hu).1 ⟨hw, hline.1⟩
        exact ⟨rest, _, _, ⟨_, hleft, hrest, htail ▸ hlines⟩, hline.2, rfl⟩
  · rintro ⟨rest, header, headers', ⟨text, rfl, hrest, hlines⟩, hparse, rfl⟩
    have hline := HeaderLines.line ⟨find_CRLF_between hv hvc hu hrest, hparse⟩ hlines
    simpa only [List.append_assoc] using hline

/-- **Where a pattern without line ends stands:** in the body, or in a header line. -/
theorem cut {pat : Bytes} (hpat : pat ≠ []) (hpatc : ∀ c ∈ CRLF, c ∉ pat)
    (h : HeaderLines w headers (CRLF ++ body)) {i : ℕ} (hi : pat <+: w.drop i) :
    w.length ≤ i + body.length ∨
      ∃ earlier p, HeaderLines (w.take i) earlier p ∧ find CRLF p = none := by
  generalize htail : CRLF ++ body = tail at h
  induction h generalizing i with
  | done =>
      left
      rw [← htail, ← List.nil_append (CRLF ++ body)] at hi
      have hpos := List.length_pos_iff.2 hpat
      have hcut := cut_line hpat hpatc hi
      rw [List.length_nil] at hcut
      rw [← htail, List.length_append, length_CRLF]
      omega
  | line hline hlines ih =>
      rename_i line text tail header headers'
      rcases cut_line hpat hpatc hi with hle | hge
      · right
        refine ⟨[], _, .done _, ?_⟩
        rw [List.take_append_of_le_length (by omega)]
        exact find_eq_none_of_infix hline.1 (List.take_prefix _ _).isInfix
      · obtain ⟨j, rfl⟩ : ∃ j, i = line.length + 2 + j := ⟨i - (line.length + 2), by omega⟩
        rw [← List.drop_drop, drop_line] at hi
        rcases ih hi htail with hbody | ⟨earlier, p, hearlier, hp⟩
        · left
          simp only [List.length_append, length_CRLF]
          omega
        · right
          refine ⟨header :: earlier, p, ?_, hp⟩
          have htake : (line ++ (CRLF ++ text)).take (line.length + 2 + j) =
              line ++ (CRLF ++ text.take j) := by
            rw [← List.append_assoc, ← length_CRLF, ← List.length_append, List.take_length_add_append,
              List.append_assoc]
          rw [htake]
          exact .line hline hearlier

end HeaderLines

/-! ### The header that the count is written into -/

/-- A line is a header just if it has a colon. -/
theorem exists_parse_iff {line : Bytes} :
    (∃ header, HTTPHeader.parse line = .ok header) ↔ 58 ∈ line := by
  have hcolon : ascii ":" = [58] := by decide
  rw [HTTPHeader.parse, hcolon]
  rcases hfind : find [58] line with _ | i
  · refine iff_of_false ?_ (not_mem_of_find_singleton hfind)
    rintro ⟨header, h⟩
    cases h
  · exact iff_of_true ⟨_, rfl⟩ (take_of_find_singleton hfind).2

/-- The key of a header is its line up to the colon. -/
theorem key_of_parse {line : Bytes} {header : HTTPHeader} (h : HTTPHeader.parse line = .ok header) :
    header.key = line.takeWhile (· ≠ 58) := by
  have hcolon : ascii ":" = [58] := by decide
  rw [HTTPHeader.parse, hcolon] at h
  rcases hfind : find [58] line with _ | i
  · rw [hfind] at h
    cases h
  · rw [hfind] at h
    cases h
    exact (take_of_find_singleton hfind).1

/-- Only spaces are stripped. -/
theorem mem_stripSpaces {v : Bytes} {c : UInt8} (h : c ∈ v) (hc : c ≠ 32) : c ∈ stripSpaces v := by
  rw [← List.takeWhile_append_dropWhile (p := (· = 32)) (l := v)] at h
  rcases List.mem_append.1 h with hspace | hrest
  · exact absurd (by simpa using List.mem_takeWhile_imp hspace) hc
  · exact hrest

/-- A key with an equals sign is not `Content-Length`. -/
theorem isLength_of_mem {header : HTTPHeader} (h : 61 ∈ header.key) : header.isLength = false := by
  rw [HTTPHeader.isLength, equivalentStrings, decide_eq_false_iff_not]
  intro heq
  have hmem := List.mem_map_of_mem (f := httpToLower) (mem_stripSpaces h (by decide))
  rw [heq] at hmem
  exact absurd hmem (by decide)

section

variable {p x y : Bytes} {header header' : HTTPHeader}

/-- Whether the line of a count is a `Content-Length` is decided in front of the count. -/
theorem isLength_count_iff (h : HTTPHeader.parse (p ++ (ascii "MaxCount=" ++ x)) = .ok header) :
    header.isLength = true ↔
      58 ∈ p ∧ equivalentStrings (p.takeWhile (· ≠ 58)) (ascii "Content-Length") = true := by
  have hkey := key_of_parse h
  by_cases hcolon : 58 ∈ p
  · rw [takeWhile_append_of_mem hcolon] at hkey
    rw [HTTPHeader.isLength, hkey]
    exact (and_iff_right hcolon).symm
  · have hall := takeWhile_of_not_mem hcolon
    rw [List.takeWhile_append] at hkey
    have hcount : ∀ c ∈ ascii "MaxCount=", decide (c ≠ 58) = true := by decide +kernel
    rw [hall, if_pos rfl, List.takeWhile_append_of_pos hcount] at hkey
    have hequals : 61 ∈ header.key := by
      rw [hkey]
      exact List.mem_append_right _ (List.mem_append_left _ (by decide))
    rw [isLength_of_mem hequals]
    exact iff_of_false Bool.false_ne_true fun h => hcolon h.1

/-- **A count is no length.** -/
theorem myatoi_count (h : HTTPHeader.parse (p ++ (ascii "MaxCount=" ++ x)) = .ok header)
    (hlength : header.isLength = true) {z : ℤ} : myatoi header.value 10 ≠ .ok z := by
  intro hz
  obtain ⟨hcolon, -⟩ := (isLength_count_iff h).1 hlength
  have hascii : ascii ":" = [58] := by decide
  obtain ⟨i, hi⟩ : ∃ i, find [58] p = some i := by
    rcases hfind : find [58] p with _ | i
    · exact absurd hcolon (not_mem_of_find_singleton hfind)
    · exact ⟨i, rfl⟩
  have hle := add_length_le_of_find hi
  rw [List.length_singleton] at hle
  have hM : (77 : UInt8) ∈ (p ++ (ascii "MaxCount=" ++ x)).drop (i + 1) := by
    rw [List.drop_append_of_le_length hle]
    exact List.mem_append_right _ (List.mem_append_left _ (by decide))
  have hvalue : (77 : UInt8) ∈ header.value := by
    rw [HTTPHeader.parse, hascii, find_append_of_some hi] at h
    cases h
    dsimp only
    split_ifs
    · exact hM
    · exact mem_stripSpaces hM (by decide)
  obtain ⟨hdenotes, -, -⟩ := myatoi_eq_ok_iff.1 hz
  obtain ⟨spaces, sign, pre, ds, heq, hspaces, hsign, hpre, -, hds, -⟩ := hdenotes
  rw [heq] at hvalue
  rcases List.mem_append.1 hvalue with hmem | hmem
  · exact absurd (hspaces 77 hmem) (by decide)
  rcases List.mem_append.1 hmem with hmem | hmem
  · rcases hsign with rfl | rfl | rfl
    · cases hmem
    · exact absurd hmem (by decide)
    · exact absurd hmem (by decide)
  rcases List.mem_append.1 hmem with hmem | hmem
  · rcases hpre with rfl | ⟨hbase, -⟩
    · cases hmem
    · exact absurd hbase (by decide)
  · exact absurd (hds 77 hmem) (by decide)

/-- **The line of the count is not read for the length,** whatever follows the count. -/
theorem lengthIs_count_iff {earlier later later' : List HTTPHeader} {n n' : ℕ}
    (hx : HTTPHeader.parse (p ++ (ascii "MaxCount=" ++ x)) = .ok header)
    (hy : HTTPHeader.parse (p ++ (ascii "MaxCount=" ++ y)) = .ok header')
    (h : LengthIs (earlier ++ header :: later) n) :
    LengthIs (earlier ++ header' :: later') n' ↔ LengthIs (earlier ++ later') n' := by
  refine lengthIs_insert ?_
  rcases hfind : earlier.find? HTTPHeader.isLength with _ | first
  · right
    by_contra hlength
    have hsame := (isLength_count_iff hx).trans (isLength_count_iff hy).symm
    have hlength := hsame.2 (Bool.eq_true_of_not_eq_false hlength)
    obtain ⟨found, z, hfound, hz, -⟩ := h
    rw [List.find?_append, hfind, Option.none_or, List.find?_cons_of_pos hlength] at hfound
    cases hfound
    exact myatoi_count hx hlength hz
  · exact Or.inl rfl

end

/-! ### The rewritten text -/

/-- The text with the digit `c` for its count. -/
def rewritten (buffer : Bytes) (first : ℕ) (c : UInt8) : Bytes :=
  buffer.take first ++ ((ascii "MaxCount=" ++ [c]) ++ buffer.drop (first + 9 + sizeofString))

theorem not_mem_maxCount : ∀ c ∈ CRLF, c ∉ ascii "MaxCount=" := by decide +kernel

/-- No line end and no colon is in a count of one digit. -/
theorem not_mem_count {c : UInt8} (hc : (digitValue 10 c).isSome) :
    ascii "MaxCount=" ++ [c] ≠ [] ∧ (∀ b ∈ CRLF, b ∉ ascii "MaxCount=" ++ [c]) ∧
      58 ∉ ascii "MaxCount=" ++ [c] := by
  have hne : ∀ b : UInt8, ¬ (digitValue 10 b).isSome → b ≠ c := fun b hb hbc => hb (hbc ▸ hc)
  refine ⟨List.append_ne_nil_of_right_ne_nil _ (List.cons_ne_nil _ _), ?_, ?_⟩
  · intro b hb hmem
    rcases List.mem_append.1 hmem with hmem | hmem
    · exact not_mem_maxCount b hb hmem
    · have hb' : b = 13 ∨ b = 10 := by simpa [CRLF] using hb
      rcases hb' with rfl | rfl
      · exact hne 13 (by decide) (List.mem_singleton.1 hmem)
      · exact hne 10 (by decide) (List.mem_singleton.1 hmem)
  · intro hmem
    rcases List.mem_append.1 hmem with hmem | hmem
    · exact absurd hmem (by decide)
    · exact hne 58 (by decide) (List.mem_singleton.1 hmem)

/-- A method in front of a count does not depend on the count. -/
theorem take_of_count {u t : Bytes} (h : (u ++ (ascii "MaxCount=" ++ t)).take 5 = ascii "POST ")
    (s : Bytes) : (u ++ s).take 5 = ascii "POST " := by
  have hle : 5 ≤ u.length := by
    by_contra hlt
    have hM : ascii "MaxCount=" = 77 :: ascii "axCount=" := by decide
    have hmem : (77 : UInt8) ∈ (u ++ (ascii "MaxCount=" ++ t)).take 5 := by
      rw [List.take_append, hM, show 5 - u.length = (4 - u.length) + 1 by omega, List.cons_append,
        List.take_succ_cons]
      exact List.mem_append_right _ List.mem_cons_self
    rw [h] at hmem
    exact absurd hmem (by decide)
  rw [List.take_append_of_le_length hle] at h ⊢
  exact h

section

variable {buffer before p : Bytes} {m : HTTPRequest} {first : ℕ} {c : UInt8}
  {earlier : List HTTPHeader}

/-- The text around the count. -/
theorem eq_around_count (hfirst : find (ascii "MaxCount=") buffer = some first) :
    buffer = buffer.take first ++ (ascii "MaxCount=" ++ buffer.drop (first + 9)) := by
  have hcut := eq_append_of_find hfirst
  rwa [length_maxCount] at hcut

/-- **In the body** the count must be one byte, the last one. -/
theorem rewritten_body_iff (h : IsRequest buffer m)
    (hfirst : find (ascii "MaxCount=") buffer = some first)
    (hbody : buffer.length ≤ first + m.body.length) :
    (∃ m', IsRequest (rewritten buffer first c) m') ↔ buffer.length = first + 10 := by
  obtain ⟨head, hbuffer, hline, hlines, hsize, -⟩ := isRequest_iff.1 h
  obtain ⟨text, rfl, hany⟩ := hlines.exists_text
  have hfit := add_length_le_of_find hfirst
  rw [length_maxCount] at hfit
  set before := m.firstLine ++ (CRLF ++ (text ++ CRLF)) with hbefore
  have hhead : ∀ t, before ++ t = m.firstLine ++ (CRLF ++ (text ++ (CRLF ++ t))) := by
    intro t
    simp only [hbefore, List.append_assoc]
  have hcut : buffer = before ++ m.body := hbuffer.trans (hhead m.body).symm
  have hlength := congrArg List.length hcut
  rw [List.length_append] at hlength
  have htake : buffer.take first = before ++ m.body.take (first - before.length) := by
    rw [hcut, List.take_append, List.take_of_length_le (by omega)]
  set body := m.body.take (first - before.length) ++
    ((ascii "MaxCount=" ++ [c]) ++ buffer.drop (first + 9 + sizeofString)) with hnew
  have htext : rewritten buffer first c = m.firstLine ++ (CRLF ++ (text ++ (CRLF ++ body))) := by
    rw [rewritten, htake, List.append_assoc, ← hnew, hhead]
  have hsame : SizedBy m.firstLine m.headers body.length ↔ body.length = m.body.length := by
    constructor
    · exact fun hnew => hnew.unique hsize
    · intro heq
      rwa [heq]
  have hcount : body.length = first - before.length + (10 + (buffer.length - (first + 9 + 32))) := by
    rw [hnew]
    simp only [List.length_append, List.length_take, List.length_drop, length_maxCount,
      List.length_singleton, sizeofString]
    omega
  rw [htext, (hany (CRLF ++ body)).exists_isRequest_iff hline, hsame]
  omega

/-- **In the first line** what is left must go on as a head, which gives the length of what
is then the body. -/
theorem rewritten_firstLine_iff (h : IsRequest buffer m) (hpost : m.firstLine.take 5 = ascii "POST ")
    (hfirst : find (ascii "MaxCount=") buffer = some first) (hc : (digitValue 10 c).isSome)
    (hline : find CRLF (buffer.take first) = none) :
    (∃ m', IsRequest (rewritten buffer first c) m') ↔
      ∃ rest headers body, GoesOn (buffer.drop (first + 9 + sizeofString)) rest headers body ∧
        LengthIs headers body.length := by
  obtain ⟨hv, hvc, -⟩ := not_mem_count hc
  -- the method is in front of the count
  have hmethod : ∀ s, (buffer.take first ++ s).take 5 = ascii "POST " := by
    obtain ⟨head, hbuffer, hfirstLine, -⟩ := isRequest_iff.1 h
    obtain ⟨rest, hrest, -⟩ := (append_eq_line_iff (by decide) not_mem_maxCount hline).1
      ⟨(eq_around_count hfirst).symm.trans hbuffer, hfirstLine⟩
    rw [hrest] at hpost
    exact take_of_count hpost
  constructor
  · rintro ⟨m', hm'⟩
    obtain ⟨head, htext, hfirstLine, hlines, hsize, -⟩ := isRequest_iff.1 hm'
    obtain ⟨rest, hrest, hleft, hnone⟩ := (append_eq_line_iff hv hvc hline).1 ⟨htext, hfirstLine⟩
    rw [hrest, sizedBy_iff (hmethod _)] at hsize
    exact ⟨rest, m'.headers, m'.body, ⟨head, hleft, hnone, hlines⟩, hsize⟩
  · rintro ⟨rest, headers, body, ⟨text, hleft, hrest, hlines⟩, hlength⟩
    obtain ⟨htext, hfirstLine⟩ := (append_eq_line_iff hv hvc hline).2 ⟨rest, rfl, hleft, hrest⟩
    rw [rewritten, htext, hlines.exists_isRequest_iff hfirstLine, sizedBy_iff (hmethod _)]
    exact hlength

/-- **In a header line** the line must keep a colon, too. -/
theorem rewritten_header_iff (h : IsRequest buffer m) (hpost : m.firstLine.take 5 = ascii "POST ")
    (hfirst : find (ascii "MaxCount=") buffer = some first) (hc : (digitValue 10 c).isSome)
    (hbefore : buffer.take first = m.firstLine ++ (CRLF ++ before))
    (hearlier : HeaderLines before earlier p) (hp : find CRLF p = none) :
    (∃ m', IsRequest (rewritten buffer first c) m') ↔
      ∃ rest headers body, GoesOn (buffer.drop (first + 9 + sizeofString)) rest headers body ∧
        (58 ∈ p ∨ 58 ∈ rest) ∧ LengthIs (earlier ++ headers) body.length := by
  obtain ⟨hv, hvc, hcolon⟩ := not_mem_count hc
  obtain ⟨-, -, hline, -⟩ := isRequest_iff.1 h
  have hmem : ∀ rest, 58 ∈ p ++ ((ascii "MaxCount=" ++ [c]) ++ rest) ↔ 58 ∈ p ∨ 58 ∈ rest := by
    intro rest
    rw [List.mem_append, List.mem_append, or_iff_right hcolon]
  -- the line as it was
  obtain ⟨header, later, n, rest₀, hparse, hlength⟩ : ∃ header later n rest₀,
      HTTPHeader.parse (p ++ (ascii "MaxCount=" ++ rest₀)) = .ok header ∧
        LengthIs (earlier ++ header :: later) n := by
    have hbuffer := eq_around_count hfirst
    rw [hbefore, List.append_assoc, List.append_assoc] at hbuffer
    rw [hbuffer, (hearlier.append _).isRequest_iff hline] at h
    obtain ⟨headers, body, hlines, hsize, -⟩ := h
    obtain ⟨rest₀, header, later, -, hparse, rfl⟩ :=
      (HeaderLines.begun_iff (by decide) not_mem_maxCount hp).1 hlines
    exact ⟨header, later, body.length, rest₀, hparse, (sizedBy_iff hpost).1 hsize⟩
  have htext : rewritten buffer first c = m.firstLine ++ (CRLF ++ (before ++
      ((ascii "MaxCount=" ++ [c]) ++ buffer.drop (first + 9 + sizeofString)))) := by
    rw [rewritten, hbefore, List.append_assoc, List.append_assoc]
  rw [htext]
  constructor
  · rintro ⟨m', hm'⟩
    obtain ⟨headers, body, hlines, hsize, -⟩ := ((hearlier.append _).isRequest_iff hline).1 hm'
    obtain ⟨rest, header', headers', hgoes, hparse', rfl⟩ :=
      (HeaderLines.begun_iff hv hvc hp).1 hlines
    have hkeeps := (hmem rest).1 (exists_parse_iff.1 ⟨header', hparse'⟩)
    rw [List.append_assoc (ascii "MaxCount=")] at hparse'
    rw [sizedBy_iff hpost, lengthIs_count_iff hparse hparse' hlength] at hsize
    exact ⟨rest, headers', body, hgoes, hkeeps, hsize⟩
  · rintro ⟨rest, headers, body, hgoes, hkeeps, hnew⟩
    obtain ⟨header', hparse'⟩ := exists_parse_iff.2 ((hmem rest).2 hkeeps)
    have hlines := (HeaderLines.begun_iff hv hvc hp).2 ⟨rest, header', headers, hgoes, hparse', rfl⟩
    rw [List.append_assoc (ascii "MaxCount=")] at hparse'
    rw [← lengthIs_count_iff hparse hparse' hlength, ← sizedBy_iff hpost] at hnew
    exact ⟨_, ((hearlier.append _).isRequest_iff hline).2 ⟨_, body, hlines, hnew, rfl⟩⟩

/-- **Where the count of a request stands:** in its first line, in a header line, or in its
body. -/
theorem place_cases (h : IsRequest buffer m)
    (hfirst : find (ascii "MaxCount=") buffer = some first) :
    find CRLF (buffer.take first) = none ∨
      (∃ before earlier p, buffer.take first = m.firstLine ++ (CRLF ++ before) ∧
        HeaderLines before earlier p ∧ find CRLF p = none) ∨
      buffer.length ≤ first + m.body.length := by
  obtain ⟨head, hbuffer, hline, hlines, -, -⟩ := isRequest_iff.1 h
  obtain ⟨-, hat, -⟩ := find_eq_some_iff.1 hfirst
  rw [hbuffer] at hat ⊢
  rcases cut_line (by decide) not_mem_maxCount hat with hle | hge
  · left
    rw [List.take_append_of_le_length (by omega)]
    exact find_eq_none_of_infix hline (List.take_prefix _ _).isInfix
  · obtain ⟨j, rfl⟩ : ∃ j, first = m.firstLine.length + 2 + j :=
      ⟨first - (m.firstLine.length + 2), by omega⟩
    rw [← List.drop_drop, drop_line] at hat
    rcases hlines.cut (by decide) not_mem_maxCount hat with hbody | ⟨earlier, p, hearlier, hp⟩
    · right; right
      simp only [List.length_append, length_CRLF]
      omega
    · right; left
      refine ⟨head.take j, earlier, p, ?_, hearlier, hp⟩
      rw [← List.append_assoc, ← length_CRLF, ← List.length_append, List.take_length_add_append,
        List.append_assoc]

end

/-! ### What is passed on -/

/-- The second round passes its message on as it is, or refuses it. -/
theorem Filtering.lastRound_fst {f : Filtering} (h : f.lastRound.1 ≠ BLOCKED) :
    f.lastRound.1 = f.clientMessage := by
  rw [lastRound] at h ⊢
  split_ifs at h ⊢
  · rcases (f.limitOther_deliver (ascii "lambda")).1 with ⟨-, htext, -⟩ | ⟨-, htext, -⟩
    · exact htext
    · exact absurd htext h
  · rfl

/-- A count that was granted is one digit. -/
theorem exists_digit {list : CloudResourceList} {count : ℤ} (h : list.grant count ≠ 0) :
    ∃ c, decimal (list.grant count) = [c] ∧ (digitValue 10 c).isSome := by
  have hle : list.grant count ≤ INVOKE_LIMIT - list.invoked.length := min_le_right _ _
  obtain hone | htwo : list.grant count = 1 ∨ list.grant count = 2 := by
    rw [INVOKE_LIMIT] at hle
    omega
  · rw [hone]
    exact ⟨49, by decide +kernel, by decide⟩
  · rw [htwo]
    exact ⟨50, by decide +kernel, by decide⟩

/-- **What the filter passes on:** the buffer, or the buffer with one digit for its count. -/
theorem delivered_cases {buffer text : Bytes} {list list' : CloudResourceList}
    (h : v2filterClient buffer list = .ok (text, list')) (hne : text ≠ BLOCKED) :
    isEc2 buffer = false ∧ text = buffer ∨
      isEc2 buffer = true ∧ ∃ first c, find (ascii "MaxCount=") buffer = some first ∧
        first + 9 < buffer.length ∧ (digitValue 10 c).isSome ∧
        text = rewritten buffer first c := by
  rw [v2filterClient_rounds] at h
  obtain ⟨f, hf, h⟩ := bind_eq_ok.1 h
  have htext : f.lastRound.1 = text := congrArg Prod.fst (Except.ok.inj h)
  rw [← htext] at hne
  have hsame := htext.symm.trans (Filtering.lastRound_fst hne)
  cases hec2 : isEc2 buffer with
  | false =>
      rw [if_neg (by rw [hec2]; decide)] at hf
      cases hf
      exact Or.inl ⟨rfl, hsame⟩
  | true =>
      rw [if_pos hec2] at hf
      obtain ⟨count, hcount, hf⟩ := bind_eq_ok.1 hf
      cases hf
      obtain ⟨first, hfirst⟩ := exists_find_of_countRequested hcount
      by_cases hzero : list.grant count = 0
      · -- a refused message is refused by both rounds
        rw [Filtering.deliver_refused hzero] at hsame
        rw [htext] at hne
        exact absurd hsame hne
      · obtain ⟨c, hdigit, hc⟩ := exists_digit hzero
        rw [Filtering.deliver_granted hzero] at hsame
        refine Or.inr ⟨rfl, first, c, hfirst, lt_length_of_countRequested hfirst hcount, hc,
          hsame.trans ?_⟩
        dsimp only
        rw [writeCount_of_find hfirst, hdigit, rewritten, List.append_assoc]

/-- What is passed on is not longer than the buffer. -/
theorem delivered_length {buffer text : Bytes} {list list' : CloudResourceList}
    (h : v2filterClient buffer list = .ok (text, list')) (hne : text ≠ BLOCKED) :
    text.length ≤ buffer.length := by
  rcases delivered_cases h hne with ⟨-, rfl⟩ | ⟨-, first, c, hfirst, hlt, -, rfl⟩
  · exact le_rfl
  · have hcount : (ascii "MaxCount=" ++ [c]).length = 10 := by
      rw [List.length_append, length_maxCount, List.length_singleton]
    rw [rewritten, List.length_append, List.length_append, hcount, List.length_drop,
      List.length_take, sizeofString]
    omega

/-- **The requests that keep their framing.**  Nothing is written into them, or the count
is the last byte of the body, or it stands in the head and what is left behind the 32 bytes
goes on as a head that gives the length of what is left behind it: in the first line, or in
a header line that keeps a colon, after header lines that may give the length, too. -/
inductive KeepsFraming (buffer : Bytes) (m : HTTPRequest) : Prop
  | untouched : isEc2 buffer = false → KeepsFraming buffer m
  | body {first : ℕ} :
      find (ascii "MaxCount=") buffer = some first → buffer.length ≤ first + m.body.length →
      buffer.length = first + 10 → KeepsFraming buffer m
  | firstLine {first : ℕ} {rest body : Bytes} {headers : List HTTPHeader} :
      find (ascii "MaxCount=") buffer = some first → find CRLF (buffer.take first) = none →
      GoesOn (buffer.drop (first + 9 + sizeofString)) rest headers body →
      LengthIs headers body.length → KeepsFraming buffer m
  | header {first : ℕ} {before p rest body : Bytes} {earlier headers : List HTTPHeader} :
      find (ascii "MaxCount=") buffer = some first →
      buffer.take first = m.firstLine ++ (CRLF ++ before) → HeaderLines before earlier p →
      find CRLF p = none → GoesOn (buffer.drop (first + 9 + sizeofString)) rest headers body →
      58 ∈ p ∨ 58 ∈ rest → LengthIs (earlier ++ headers) body.length → KeepsFraming buffer m

/-- **A POST request that is passed on is one request if and only if it keeps its
framing.** -/
theorem framed_iff {buffer text : Bytes} {m : HTTPRequest} {list list' : CloudResourceList}
    (h : IsRequest buffer m) (hpost : m.firstLine.take 5 = ascii "POST ")
    (hclient : v2filterClient buffer list = .ok (text, list')) (hne : text ≠ BLOCKED) :
    (∃ m', IsRequest text m') ↔ KeepsFraming buffer m := by
  rcases delivered_cases hclient hne with ⟨hec2, rfl⟩ | ⟨hec2, first, c, hfirst, -, hc, rfl⟩
  · exact iff_of_true ⟨m, h⟩ (.untouched hec2)
  have hplace : ∀ first', find (ascii "MaxCount=") buffer = some first' → first' = first := by
    intro first' hfirst'
    rw [hfirst] at hfirst'
    exact (Option.some.inj hfirst').symm
  constructor
  · intro hframed
    rcases place_cases h hfirst with hline | ⟨before, earlier, p, hbefore, hearlier, hp⟩ | hbody
    · obtain ⟨rest, headers, body, hgoes, hlength⟩ :=
        (rewritten_firstLine_iff h hpost hfirst hc hline).1 hframed
      exact .firstLine hfirst hline hgoes hlength
    · obtain ⟨rest, headers, body, hgoes, hcolon, hlength⟩ :=
        (rewritten_header_iff h hpost hfirst hc hbefore hearlier hp).1 hframed
      exact .header hfirst hbefore hearlier hp hgoes hcolon hlength
    · exact .body hfirst hbody ((rewritten_body_iff h hfirst hbody).1 hframed)
  · intro hkeeps
    cases hkeeps with
    | untouched hec2' =>
        rw [hec2] at hec2'
        cases hec2'
    | body hfirst' hbody hend =>
        obtain rfl := hplace _ hfirst'
        exact (rewritten_body_iff h hfirst hbody).2 hend
    | firstLine hfirst' hline hgoes hlength =>
        obtain rfl := hplace _ hfirst'
        exact (rewritten_firstLine_iff h hpost hfirst hc hline).2 ⟨_, _, _, hgoes, hlength⟩
    | header hfirst' hbefore hearlier hp hgoes hcolon hlength =>
        obtain rfl := hplace _ hfirst'
        exact (rewritten_header_iff h hpost hfirst hc hbefore hearlier hp).2
          ⟨_, _, _, hgoes, hcolon, hlength⟩

/-- The text of a request for instances. -/
def instancesText (size body : String) : Bytes :=
  ascii "POST / HTTP/1.1\r\nHost: ec2\r\nContent-Length: " ++
    (ascii size ++ (ascii "\r\n\r\n" ++ ascii body))

/-- Its message. -/
def instancesRequest (size body : String) : HTTPRequest :=
  whole (ascii "POST / HTTP/1.1") [⟨ascii "Host", ascii "ec2"⟩, ⟨ascii "Content-Length", ascii size⟩]
    (ascii body)

/-- A request for three instances, with its count at the end: two are granted. -/
theorem framed_iff_atEnd :
    ∃ m', IsRequest (instancesText "30" "Action=RunInstances&MaxCount=2") m' := by
  have hrequest : IsRequest (instancesText "30" "Action=RunInstances&MaxCount=3")
      (instancesRequest "30" "Action=RunInstances&MaxCount=3") := by
    unfold IsRequest
    decide +kernel
  have hclient : (v2filterClient (instancesText "30" "Action=RunInstances&MaxCount=3") {}).map
      Prod.fst = .ok (instancesText "30" "Action=RunInstances&MaxCount=2") := by
    decide +kernel
  have hfirst : find (ascii "MaxCount=") (instancesText "30" "Action=RunInstances&MaxCount=3") =
      some 70 := by
    decide +kernel
  obtain ⟨⟨text, list⟩, hclient, rfl⟩ := map_eq_ok.1 hclient
  exact (framed_iff hrequest (by decide +kernel) hclient (by decide +kernel)).2
    (.body hfirst (by decide +kernel) (by decide +kernel))

/-- **A rewritten request that lost its framing:** the parameter behind the count is erased,
`Content-Length` is not changed, and the parser waits for the missing bytes.  It takes them
from the next request. -/
theorem framing_lost :
    IsRequest (instancesText "41" "Action=RunInstances&MaxCount=1&MinCount=1")
        (instancesRequest "41" "Action=RunInstances&MaxCount=1&MinCount=1") ∧
      (v2filterClient (instancesText "41" "Action=RunInstances&MaxCount=1&MinCount=1") {}).map
        Prod.fst = .ok (instancesText "41" "Action=RunInstances&MaxCount=1") ∧
      instancesText "41" "Action=RunInstances&MaxCount=1" ≠ BLOCKED ∧
      ¬ (∃ m', IsRequest (instancesText "41" "Action=RunInstances&MaxCount=1") m') ∧
      (HTTPRequestParser.new.parse (instancesText "41" "Action=RunInstances&MaxCount=1") >>=
        fun s => s.parse (ascii "GET / HTTP/1.1\r\nHost: a\r\n\r\n")) =
          .error (.runtimeError (ascii "Cannot handle HTTP method: 1.1")) := by
  refine ⟨?_, by decide +kernel, by decide +kernel, ?_, by decide +kernel⟩
  · unfold IsRequest
    decide +kernel
  · rintro ⟨m', hm'⟩
    have hnone : (HTTPRequestParser.new.parse
        (instancesText "41" "Action=RunInstances&MaxCount=1")).map
          HTTPMessageSequence.completeMessages = .ok [] := by
      decide +kernel
    rw [show HTTPRequestParser.new.parse _ = _ from hm'] at hnone
    cases hnone

end V2Proxy
