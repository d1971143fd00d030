/-
# Where a chunked body ends

The grammar of RFC 2616, section 3.6.1: chunks, a last chunk of size zero, trailer lines and
an empty line (`ChunkedBody`).  The parser goes through the chunks however the stream is cut;
behind the last chunk it looks for one CRLF, or for two in a row if the response has a
`Trailer` header.  That finds the end of the body just if the header says whether there are
trailer lines (`bodyEnd_iff`).
-/

import V2Proxy.Http.ChunkGrammar

namespace V2Proxy

open Foundations

/-- A chunk header: hexadecimal digits and an extension behind them, if there is one. -/
def ChunkHeader (line : Bytes) (size : ℕ) : Prop :=
  ∃ digits extension : Bytes, line = digits ++ extension ∧ digits ≠ [] ∧
    (∀ c ∈ digits, (digitValue 16 c).isSome = true) ∧ size = digitsValue 16 digits ∧
    (extension = [] ∨ extension.head? = some 59 ∨ extension.head? = some 32) ∧
    find CRLF extension = none

/-- Chunks that are not empty. -/
inductive Chunks : Bytes → Prop
  | nil : Chunks []
  | cons {header data chunks : Bytes} : ChunkHeader header data.length → data ≠ [] →
      data.length < 2 ^ 32 - 2 → Chunks chunks →
      Chunks (header ++ (CRLF ++ (data ++ (CRLF ++ chunks))))

/-- The trailer lines and the empty line that ends the body. -/
def trailerText (trailers : List Bytes) : Bytes := trailers.flatMap (· ++ CRLF) ++ CRLF

theorem trailerText_cons_append (line : Bytes) (trailers : List Bytes) (rest : Bytes) :
    trailerText (line :: trailers) ++ rest = line ++ (CRLF ++ (trailerText trailers ++ rest)) := by
  simp only [trailerText, List.flatMap_cons, List.append_assoc]

theorem length_trailerText_cons (line : Bytes) (trailers : List Bytes) :
    (trailerText (line :: trailers)).length = line.length + 2 + (trailerText trailers).length := by
  simp only [trailerText, List.flatMap_cons, List.length_append, length_CRLF]
  omega

/-- A well-formed chunked body with these trailer lines. -/
def ChunkedBody (trailers : List Bytes) (b : Bytes) : Prop :=
  ∃ chunks last, Chunks chunks ∧ ChunkHeader last 0 ∧
    (∀ line ∈ trailers, line ≠ [] ∧ find CRLF line = none) ∧
    b = chunks ++ (last ++ (CRLF ++ trailerText trailers))

/-- Digits do not end a line. -/
theorem find_CRLF_digits {digits extension : Bytes}
    (hdigits : ∀ c ∈ digits, (digitValue 16 c).isSome = true) (h : find CRLF extension = none) :
    find CRLF (digits ++ extension) = none := by
  induction digits with
  | nil => exact h
  | cons d digits ih =>
      have hd := le_of_isSome_digitValue (hdigits d (by simp))
      have hfirst : ¬ CRLF <+: d :: (digits ++ extension) := by
        rw [CRLF, List.cons_prefix_cons]
        rintro ⟨rfl, -⟩
        exact absurd hd (by decide)
      rw [List.cons_append, find, if_neg hfirst, ih fun c hc => hdigits c (List.mem_cons_of_mem d hc)]
      rfl

/-- The size of a header is what stands in front of its extension. -/
theorem sizeText_header {digits extension : Bytes}
    (hdigits : ∀ c ∈ digits, (digitValue 16 c).isSome = true)
    (h : extension = [] ∨ extension.head? = some 59 ∨ extension.head? = some 32) :
    sizeText (digits ++ extension) = digits := by
  rw [sizeText, List.takeWhile_append_of_pos fun c hc => ?_]
  · rcases extension with _ | ⟨c, extension⟩
    · simp
    · have hc : c = 59 ∨ c = 32 := by simpa using h
      rcases hc with rfl | rfl <;> simp
  · have hlow := le_of_isSome_digitValue (hdigits c hc)
    have hspace : c ≠ 32 := by
      rintro rfl
      exact absurd hlow (by decide)
    have hsemicolon : c ≠ 59 := by
      rintro rfl
      exact absurd (hdigits 59 hc) (by decide)
    simp [hspace, hsemicolon]

namespace ChunkCursor

/-- A header of the grammar is read as what it says. -/
theorem saysSize_of_chunkHeader {line : Bytes} {size : ℕ} (h : ChunkHeader line size)
    (hsize : size < 2 ^ 32 - 2) : SaysSize line size := by
  obtain ⟨digits, extension, rfl, hne, hdigits, rfl, hextension, hnone⟩ := h
  refine ⟨find_CRLF_digits hdigits hnone, digitsValue 16 digits, ?_, by omega, by omega, by omega⟩
  rw [sizeText_header hdigits hextension]
  exact ⟨[], [], [], digits, rfl, by simp, Or.inl rfl, Or.inl rfl, hne, hdigits, rfl⟩

/-- **Chunks lead to the next header**, and from there the last one leads to the trailer. -/
theorem leads_chunks {chunks last : Bytes} (h : Chunks chunks) (hlast : ChunkHeader last 0) :
    Leads .header (chunks ++ (last ++ (CRLF ++ []))) .trailer := by
  induction h with
  | nil => exact .header (saysSize_of_chunkHeader hlast (by decide)) (.refl .trailer)
  | @cons header data chunks hheader hne hsize _ ih =>
      have hpos := List.length_pos_iff.2 hne
      have hsays := saysSize_of_chunkHeader hheader hsize
      have hdata : Leads (.behind data.length)
          (data ++ (CRLF ++ (chunks ++ (last ++ (CRLF ++ []))))) .trailer := by
        rw [Place.behind, if_neg (by omega)]
        exact .chunk (by omega) ih
      have hall := Leads.header hsays hdata
      simpa only [List.append_assoc] using hall

/-- The delimiter that ends the body. -/
def delimiter (trailersEnabled : Bool) : Bytes := needle { trailersEnabled }

/-- Behind the last chunk header, the body ends at the delimiter. -/
theorem arrival_trailer (tail : Bytes) (trailersEnabled : Bool) :
    Arrival .trailer tail trailersEnabled ((find (delimiter trailersEnabled) tail).map fun loc =>
      .ok (loc + (delimiter trailersEnabled).length)) := by
  intro c more hat hflag htext
  have hneedle : c.needle = delimiter trailersEnabled := by rw [needle, hflag]; rfl
  have hst : c.state = .trailer := hat
  rcases hloc : find c.needle c.parserBuffer with _ | loc
  · refine Or.inl ⟨?_, ?_⟩
    · rw [Quiet, hst]
      exact hloc
    · rintro rfl
      rw [List.append_nil] at htext
      rw [← hneedle, ← htext, hloc]
      rfl
  · have hnil : c.parserBuffer ≠ [] := by
      intro hnil
      have hle := add_length_le_of_find hloc
      have hpos := List.length_pos_iff.2 c.needle_ne_nil
      rw [hnil, List.length_nil] at hle
      omega
    refine Or.inr ⟨.ok (loc + c.needle.length), ?_, Loop.run_of_leave (L := loop) ?_⟩
    · rw [← hneedle, ← htext, find_append_of_some hloc more]
      rfl
    · have hstep := step_trailer hnil hst
      rw [hloc] at hstep
      exact hstep

end ChunkCursor

open ChunkCursor

/-- No line break comes before the end of the line. -/
theorem not_prefix_of_line {line : Bytes} (hline : find CRLF line = none) (rest : Bytes) {j : ℕ}
    (hj : j < line.length) : ¬ CRLF <+: (line ++ (CRLF ++ rest)).drop j :=
  (find_eq_some_iff.1 (find_CRLF_line hline rest)).2.2 j hj

/-- The empty line behind one line. -/
theorem find_emptyLine {line : Bytes} (hline : find CRLF line = none) (rest : Bytes) :
    find (CRLF ++ CRLF) (line ++ (CRLF ++ (CRLF ++ rest))) = some line.length := by
  have hfind : find (CRLF ++ CRLF) (line ++ ((CRLF ++ CRLF) ++ rest)) = some line.length := by
    refine find_append_self rest fun j hj hpre => not_prefix_of_line hline CRLF hj ?_
    rw [List.drop_append_of_le_length hj.le]
    exact (List.prefix_append CRLF CRLF).trans hpre
  rwa [List.append_assoc] at hfind

/-- The empty line behind more lines. -/
theorem find_emptyLine_append {line text : Bytes} {n : ℕ} (hline : find CRLF line = none)
    (hfirst : ¬ CRLF <+: text) (htext : find (CRLF ++ CRLF) text = some n) :
    find (CRLF ++ CRLF) (line ++ (CRLF ++ text)) = some (line.length + 2 + n) := by
  induction line with
  | nil =>
      have hCR : ¬ CRLF ++ CRLF <+: 13 :: 10 :: text := by
        intro hpre
        exact hfirst ((List.prefix_append_right_inj CRLF).1 hpre)
      have hLF : ¬ CRLF ++ CRLF <+: 10 :: text := by
        rw [CRLF, List.cons_append, List.cons_prefix_cons]
        exact fun hpre => absurd hpre.1 (by decide)
      change find (CRLF ++ CRLF) (13 :: 10 :: text) = _
      rw [find, if_neg hCR, find, if_neg hLF, htext, Option.map_some, Option.map_some,
        List.length_nil]
      congr 1
      omega
  | cons c line ih =>
      have hhere : ¬ CRLF ++ CRLF <+: c :: (line ++ (CRLF ++ text)) := by
        intro hpre
        exact not_prefix_of_line hline text (j := 0) (by simp)
          ((List.prefix_append CRLF CRLF).trans hpre)
      have hline' : find CRLF line = none :=
        find_eq_none_of_infix hline (List.suffix_cons c line).isInfix
      rw [List.cons_append, find, if_neg hhere, ih hline', Option.map_some, List.length_cons]
      congr 1
      omega

/-- **The first empty line behind trailer lines ends them.** -/
theorem find_trailerText {trailers : List Bytes} (hne : trailers ≠ [])
    (hlines : ∀ line ∈ trailers, line ≠ [] ∧ find CRLF line = none) (rest : Bytes) :
    ∃ n, find (CRLF ++ CRLF) (trailerText trailers ++ rest) = some n ∧
      n + 4 = (trailerText trailers).length := by
  induction trailers with
  | nil => exact absurd rfl hne
  | cons line trailers ih =>
      have hline := (hlines line (by simp)).2
      rw [trailerText_cons_append, length_trailerText_cons]
      rcases trailers with _ | ⟨line', trailers⟩
      · exact ⟨line.length, find_emptyLine hline rest, rfl⟩
      · obtain ⟨n, hn, hsum⟩ := ih (List.cons_ne_nil _ _) fun l hl =>
          hlines l (List.mem_cons_of_mem line hl)
        obtain ⟨hne', hline'⟩ := hlines line' (by simp)
        have hfirst : ¬ CRLF <+: trailerText (line' :: trailers) ++ rest := by
          have hpos := List.length_pos_iff.2 hne'
          have := not_prefix_of_line hline' (trailerText trailers ++ rest) hpos
          rwa [List.drop_zero, ← trailerText_cons_append] at this
        exact ⟨_, find_emptyLine_append hline hfirst hn, by omega⟩

/-- **The delimiter is found at the end of the body** just if it is the right one. -/
theorem find_delimiter_iff {trailers : List Bytes}
    (hlines : ∀ line ∈ trailers, line ≠ [] ∧ find CRLF line = none) (rest : Bytes)
    (trailersEnabled : Bool) :
    (∃ loc, find (delimiter trailersEnabled) (trailerText trailers ++ rest) = some loc ∧
      loc + (delimiter trailersEnabled).length = (trailerText trailers).length) ↔
    (trailersEnabled = true ↔ trailers ≠ []) := by
  have hempty : (trailerText []).length = 2 := rfl
  cases trailersEnabled with
  | true =>
      have hdelimiter : delimiter true = CRLF ++ CRLF := rfl
      have hfour : (CRLF ++ CRLF).length = 4 := rfl
      rw [hdelimiter, hfour]
      by_cases hne : trailers = []
      · subst hne
        simp only [ne_eq, not_true_eq_false, iff_false, hempty]
        rintro ⟨loc, -, hloc⟩
        omega
      · simp only [ne_eq, hne, not_false_eq_true, iff_true]
        exact find_trailerText hne hlines rest
  | false =>
      have hdelimiter : delimiter false = CRLF := rfl
      rw [hdelimiter, length_CRLF]
      rcases trailers with _ | ⟨line, trailers⟩
      · have hfind : find CRLF ([] ++ (CRLF ++ rest)) = some 0 := find_CRLF_line (by decide) rest
        simpa [trailerText] using hfind
      · have hpos := List.length_pos_iff.2 (hlines line (by simp)).1
        have hfind := find_CRLF_line (hlines line (by simp)).2 (trailerText trailers ++ rest)
        have htwo : 2 ≤ (trailerText trailers).length := by
          rw [trailerText, List.length_append, length_CRLF]
          omega
        rw [trailerText_cons_append, hfind, length_trailerText_cons]
        simp only [Option.some.injEq, Bool.false_eq_true, ne_eq, reduceCtorEq, not_false_eq_true,
          iff_true, iff_false]
        rintro ⟨loc, rfl, hloc⟩
        omega

namespace ChunkedBodyParser

/-- **The bytes that are claimed for a well-formed body are the body** if and only if
`trailers_enabled_` is set just when there are trailer lines: however the stream is cut, and
whatever follows. -/
theorem bodyEnd_iff {trailers pieces : List Bytes} {b rest : Bytes} (trailersEnabled : Bool)
    (hb : ChunkedBody trailers b) (hcut : pieces.flatten = b ++ rest) (hmax : b.length < maxSize) :
    ({ trailersEnabled } : ChunkedBodyParser).readAll pieces = .ok (.ends b.length) ↔
      (trailersEnabled = true ↔ trailers ≠ []) := by
  obtain ⟨chunks, last, hchunks, hlast, hlines, rfl⟩ := hb
  rw [← find_delimiter_iff hlines rest trailersEnabled]
  set w := chunks ++ (last ++ (CRLF ++ [])) with hw
  have hbody : chunks ++ (last ++ (CRLF ++ trailerText trailers)) = w ++ trailerText trailers := by
    simp only [hw, List.append_assoc, List.nil_append]
  rw [hbody] at hcut hmax ⊢
  rw [List.length_append] at hmax ⊢
  have hway : OnWay ({ trailersEnabled } : ChunkedBodyParser).toChunkCursor .trailer
      pieces.flatten (trailerText trailers ++ rest) w.length w :=
    ⟨⟨.header, rfl, leads_chunks hchunks hlast⟩, by rw [hcut, List.append_assoc]; rfl,
      Nat.zero_add _, by omega⟩
  have hdecided := (settled_new trailersEnabled).readAll_arrival hway rfl
    (arrival_trailer _ trailersEnabled)
  rcases hfind : find (delimiter trailersEnabled) (trailerText trailers ++ rest) with _ | loc
  · rw [hfind] at hdecided
    obtain ⟨p', hp'⟩ := hdecided
    simp [hp']
  · rw [hfind] at hdecided
    obtain ⟨n, hn, hsum⟩ := hdecided
    have hacked : ({ trailersEnabled } : ChunkedBodyParser).ackedSoFar = 0 := rfl
    rw [hacked] at hsum
    simp only [hn, Except.ok.injEq, ReadOutcome.ends.injEq, Option.some.injEq, exists_eq_left']
    omega

/-- The header of the last chunk. -/
theorem chunkHeader_zero : ChunkHeader (ascii "0") 0 :=
  ⟨ascii "0", [], by decide, by decide, by decide +kernel, by decide +kernel, Or.inl rfl, by decide⟩

/-- A chunk with an extension and a trailer line, cut in the middle, with the next message
behind it. -/
theorem bodyEnd_iff_trailer :
    ({ trailersEnabled := true } : ChunkedBodyParser).readAll
      [ascii "4;x=y\r\nabcd\r\n0\r\nT: v\r", ascii "\n\r\nHTTP/1.1 200 OK\r\n"] =
        .ok (.ends 24) := by
  have hheader : ChunkHeader (ascii "4;x=y") (ascii "abcd").length :=
    ⟨ascii "4", ascii ";x=y", by decide, by decide, by decide +kernel, by decide +kernel,
      Or.inr (Or.inl (by decide)), by decide⟩
  have hbody : ChunkedBody [ascii "T: v"] (ascii "4;x=y\r\nabcd\r\n0\r\nT: v\r\n\r\n") :=
    ⟨_, _, .cons hheader (by decide) (by decide) .nil, chunkHeader_zero, by decide +kernel,
      by decide +kernel⟩
  have hlength : (ascii "4;x=y\r\nabcd\r\n0\r\nT: v\r\n\r\n").length = 24 := by decide +kernel
  have hcut : [ascii "4;x=y\r\nabcd\r\n0\r\nT: v\r", ascii "\n\r\nHTTP/1.1 200 OK\r\n"].flatten =
      ascii "4;x=y\r\nabcd\r\n0\r\nT: v\r\n\r\n" ++ ascii "HTTP/1.1 200 OK\r\n" := by decide +kernel
  rw [← hlength]
  exact (bodyEnd_iff true hbody hcut (by decide +kernel)).2 (by decide)

/-- **A trailer that was not announced is cut off after its first line, and one that was
announced is waited for.** -/
theorem bodyEnd_unannounced :
    ChunkedBody [ascii "T: v"] (ascii "0\r\nT: v\r\n\r\n") ∧
      (ascii "0\r\nT: v\r\n\r\n").length = 11 ∧
      ({ trailersEnabled := false } : ChunkedBodyParser).readAll [ascii "0\r\nT: v\r\n\r\n"] =
        .ok (.ends 9) ∧
    ChunkedBody [] (ascii "0\r\n\r\n") ∧
      ∃ p, ({ trailersEnabled := true } : ChunkedBodyParser).readAll [ascii "0\r\n\r\n"] =
        .ok (.npos p) :=
  ⟨⟨[], ascii "0", .nil, chunkHeader_zero, by decide +kernel, by decide +kernel⟩, by decide +kernel,
    by decide +kernel, ⟨[], ascii "0", .nil, chunkHeader_zero, by simp, by decide +kernel⟩,
    { parserBuffer := CRLF, parsedSoFar := 3, state := .trailer, trailersEnabled := true,
      ackedSoFar := 5 }, by decide +kernel⟩

end ChunkedBodyParser

end V2Proxy
