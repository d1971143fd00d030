/-
# A server that can abort the proxy

`read` asserts that the data of a chunk is followed by a CRLF, and that is for the server to
decide: with a chunk that is not, the process aborts.  The other assertions of the parser
hold on every stream (`framing_step`), so this is the one way (`abort_iff`): a stream is
`Misframed` when its headers and chunks lead to such a chunk, in the sizes that
`get_chunk_size` makes of the headers.
-/

import V2Proxy.Http.ChunkGrammar

namespace V2Proxy

open Foundations

/-- In the stream, a chunk whose size leaves room for the CRLF in 32 bits is followed by two
other bytes. -/
def Misframed (stream : Bytes) : Prop :=
  ∃ w data behind rest : Bytes, stream = w ++ (data ++ (behind ++ rest)) ∧
    ChunkCursor.Leads .header w (.chunk data.length) ∧ data.length + 2 < 2 ^ 32 ∧
    behind.length = 2 ∧ behind ≠ CRLF

theorem Misframed.append {stream : Bytes} (h : Misframed stream) (more : Bytes) :
    Misframed (stream ++ more) := by
  obtain ⟨w, data, behind, rest, rfl, h⟩ := h
  exact ⟨w, data, behind, rest ++ more, by simp only [List.append_assoc], h⟩

namespace ChunkCursor

variable {c c' : ChunkCursor} {stream : Bytes} {room : ℕ}

/-- The cursor has come through all of the stream but what it holds. -/
def Came (stream : Bytes) (c : ChunkCursor) : Prop :=
  ∃ (w : Bytes) (place : Place), stream = w ++ c.parserBuffer ∧ c.At place ∧ Leads .header w place

/-- What a round does at the header of a chunk. -/
theorem came_header {w : Bytes} (hnil : c.parserBuffer ≠ []) (hat : c.At .header)
    (hleads : Leads .header w .header) (hmax : (w ++ c.parserBuffer).length < maxSize) :
    (∃ r, c.step = .ok (.inr r)) ∨
      (∃ c', c.step = .ok (.inl c') ∧ c'.Came (w ++ c.parserBuffer)) ∨
      ∃ e, c.step = .error e ∧ e.Raised := by
  have hst : c.state = .chunkHdr := hat
  rcases hi : find CRLF c.parserBuffer with _ | i
  · refine Or.inl ⟨.npos c, ?_⟩
    rw [step_chunkHdr hnil hst, hi]
  · set line := c.parserBuffer.take i with hlinedef
    have hbuf : c.parserBuffer = line ++ (CRLF ++ c.parserBuffer.drop (i + 2)) :=
      eq_append_of_find hi
    have hline : find CRLF line = none :=
      find_take_of_find (by decide) hi
    have hlength : line.length < maxSize := by
      have hle : line.length ≤ c.parserBuffer.length := List.length_take_le' i _
      rw [List.length_append] at hmax
      omega
    rcases hz : myatoi (sizeText line) 16 with e | z
    · refine Or.inr (Or.inr ⟨e, ?_, raised_of_myatoi hz⟩)
      rw [step_header hst hbuf hline hlength, hz]
      rfl
    · have hsays : SaysSize line (z % 2 ^ 32).toNat :=
        ⟨hline, z, (myatoi_eq_ok_iff.1 hz).1, (myatoi_eq_ok_iff.1 hz).2.1,
          (myatoi_eq_ok_iff.1 hz).2.2, rfl⟩
      obtain ⟨c', hstep, hmoved⟩ := step_saysSize hat hsays hbuf hlength
      refine Or.inr (Or.inl ⟨c', hstep, w ++ (line ++ (CRLF ++ [])), _, ?_, hmoved.here,
        hleads.trans (.header hsays (.refl _))⟩)
      rw [hmoved.buffer]
      conv_lhs => rw [hbuf]
      simp only [List.append_assoc, List.nil_append]

/-- What a round does at the data of a chunk. -/
theorem came_chunk {w : Bytes} {size : ℕ} (hnil : c.parserBuffer ≠ []) (hat : c.At (.chunk size))
    (hleads : Leads .header w (.chunk size)) (hread : c.Reading room) (hroom : room ≤ bufferSize) :
    (∃ r, c.step = .ok (.inr r)) ∨
      (∃ c', c.step = .ok (.inl c') ∧ c'.Came (w ++ c.parserBuffer)) ∨
      ∃ e, c.step = .error e ∧ (e.Raised ∨ Misframed (w ++ c.parserBuffer)) := by
  obtain ⟨hst, hsize⟩ := hat
  rcases Nat.lt_or_ge (size + 2) (2 ^ 32) with hlt | hbig
  · rw [step_chunk_of_fits hnil hst hsize hlt]
    split_ifs with hshort hCRLF
    · exact Or.inl ⟨_, rfl⟩
    · -- the data and the CRLF behind it
      have hdata : (c.parserBuffer.take size).length = size :=
        List.length_take_of_le (by omega)
      refine Or.inr (Or.inl ⟨_, rfl, w ++ (c.parserBuffer.take size ++ (CRLF ++ [])), .header,
        ?_, rfl, hleads.trans ?_⟩)
      · rw [List.append_nil, List.append_assoc, List.append_assoc, ← hCRLF]
        congr 1
        rw [← List.drop_drop, List.take_append_drop, List.take_append_drop]
      · have hchunk : Leads (.chunk (c.parserBuffer.take size).length)
            (c.parserBuffer.take size ++ (CRLF ++ [])) .header :=
          .chunk (by omega) (.refl .header)
        rwa [hdata] at hchunk
    · refine Or.inr (Or.inr ⟨_, rfl, Or.inr ⟨w, c.parserBuffer.take size,
        (c.parserBuffer.drop size).take 2, c.parserBuffer.drop (size + 2), ?_, ?_, ?_, ?_, hCRLF⟩⟩)
      · rw [← List.drop_drop, List.take_append_drop, List.take_append_drop]
      · rwa [List.length_take_of_le (by omega)]
      · rwa [List.length_take_of_le (by omega)]
      · rw [List.length_take, List.length_drop]
        omega
  · rw [step_chunk hnil hst]
    split_ifs with hneed
    · rw [takeChunk_wraps hread hst hroom (by omega)]
      exact Or.inr (Or.inr ⟨_, rfl, Or.inl trivial⟩)
    · exact Or.inl ⟨_, rfl⟩

/-- **What a round does** behind a text of the grammar: it leaves, goes on behind more of
it, or fails, by an exception unless the stream is misframed. -/
theorem Came.step (h : c.Came stream) (hmax : stream.length < maxSize) (hread : c.Reading room)
    (hroom : room ≤ bufferSize) :
    (∃ r, c.step = .ok (.inr r)) ∨ (∃ c', c.step = .ok (.inl c') ∧ c'.Came stream) ∨
      ∃ e, c.step = .error e ∧ (e.Raised ∨ Misframed stream) := by
  by_cases hnil : c.parserBuffer = []
  · exact Or.inl ⟨_, step_nil hnil⟩
  obtain ⟨w, place, rfl, hat, hleads⟩ := h
  cases place with
  | header =>
      rcases came_header hnil hat hleads hmax with hr | hc' | ⟨e, he, hraised⟩
      · exact Or.inl hr
      · exact Or.inr (Or.inl hc')
      · exact Or.inr (Or.inr ⟨e, he, Or.inl hraised⟩)
  | chunk size => exact came_chunk hnil hat hleads hread hroom
  | trailer =>
      rw [step_trailer hnil hat]
      split <;> exact Or.inl ⟨_, rfl⟩

/-- Behind a text of the grammar, with new bytes behind quiet ones. -/
structure Framed (stream : Bytes) (room : ℕ) (c : ChunkCursor) : Prop where
  came : c.Came stream
  reading : c.Reading room

theorem Framed.next (h : c.Framed stream room) (hmax : stream.length < maxSize)
    (hroom : room ≤ bufferSize) (hs : c.step = .ok (.inl c')) : c'.Framed stream room := by
  refine ⟨?_, (h.reading.next hs).2⟩
  rcases h.came.step hmax h.reading hroom with ⟨r, hr⟩ | ⟨c₁, hc₁, hcame⟩ | ⟨e, he, -⟩
  · rw [hs] at hr
    cases hr
  · rw [hs] at hc₁
    cases hc₁
    exact hcame
  · rw [hs] at he
    cases he

/-- **The loop raises an exception, unless the stream is misframed.** -/
theorem Framed.throws_run (h : c.Framed stream room) (hmax : stream.length < maxSize)
    (hroom : room ≤ bufferSize) : Throws (fun e => e.Raised ∨ Misframed stream) (loop.run c) := by
  refine Loop.run_throws_of (L := loop) (I := Framed stream room)
    (fun _ _ hc hs => hc.next hmax hroom hs) (fun c hc e he => ?_) h
  have herror : c.step = .error e := he
  rcases hc.came.step hmax hc.reading hroom with ⟨r, hr⟩ | ⟨c₁, hc₁, -⟩ | ⟨e', he', hcase⟩
  · rw [herror] at hr
    cases hr
  · rw [herror] at hc₁
    cases hc₁
  · rw [herror] at he'
    cases he'
    exact hcase

/-- Where the loop asks for more, it has come that far. -/
theorem Framed.run_npos (h : c.Framed stream room) (hmax : stream.length < maxSize)
    (hroom : room ≤ bufferSize) (hr : loop.run c = .ok (.npos c')) : c'.Came stream := by
  refine Loop.run_post (L := loop) (I := Framed stream room)
    (Q := fun r => ∀ c', r = .npos c' → c'.Came stream)
    (fun _ _ hc hs => hc.next hmax hroom hs) (fun c r hc hs c' hr => ?_) h hr c' rfl
  subst hr
  obtain ⟨rfl, -⟩ := step_npos hs
  exact hc.came

/-- A chunk that is not followed by a CRLF fails the assertion. -/
theorem arrival_misframed {data behind rest : Bytes} (hlt : data.length + 2 < 2 ^ 32)
    (hbehind : behind.length = 2) (hne : behind ≠ CRLF) (trailersEnabled : Bool) :
    Arrival (.chunk data.length) (data ++ (behind ++ rest)) trailersEnabled
      (some (.error (.assertion
        (ascii "parser_buffer_.substr( current_chunk_size_, 2 ) == \"\\r\\n\"")))) := by
  intro c more hat _ htext
  rcases Nat.lt_or_ge c.parserBuffer.length (data.length + 2) with hshort | hge
  · refine Or.inl ⟨?_, ?_⟩
    · have hadd : (c.currentChunkSize + 2).toNat = data.length + 2 := by
        have := hat.2
        rcases toNat_add_two c.currentChunkSize with hadd | ⟨-, hbig⟩ <;> omega
      rw [Quiet, hat.1]
      exact Or.inl (by omega)
    · rintro rfl
      have hlength := congrArg List.length htext
      simp only [List.length_append, List.length_nil] at hlength
      omega
  · rw [← List.append_assoc] at htext
    obtain ⟨b, hb, -⟩ := split_of_long htext (by rw [List.length_append]; omega)
    have hnil : c.parserBuffer ≠ [] := by
      intro hnil
      rw [hnil] at hge
      simp at hge
    have htake : (c.parserBuffer.drop data.length).take 2 = behind := by
      rw [hb, List.append_assoc, List.drop_left, ← hbehind, List.take_left]
    refine Or.inr ⟨_, rfl, Loop.run_of_error (L := loop) ?_⟩
    have hstep := step_chunk_of_fits hnil hat.1 hat.2 hlt
    rwa [if_neg (by omega), htake, if_neg hne] at hstep

end ChunkCursor

namespace ChunkedBodyParser

open ChunkCursor

variable {p : ChunkedBodyParser} {pieces : List Bytes}

/-- **Reads raise exceptions, unless what they have been given is misframed.** -/
theorem Settled.throws_readAll {stream : Bytes} (h : p.Settled) (hcame : p.Came stream)
    (hpieces : ∀ piece ∈ pieces, piece.length ≤ bufferSize)
    (hmax : (stream ++ pieces.flatten).length < maxSize) :
    Throws (fun e => e.Raised ∨ Misframed (stream ++ pieces.flatten)) (p.readAll pieces) := by
  induction pieces generalizing p stream with
  | nil => exact throws_ok _
  | cons piece pieces ih =>
      have hpiece := hpieces piece (by simp)
      rw [List.flatten_cons, ← List.append_assoc] at hmax ⊢
      have hmax' : (stream ++ piece).length < maxSize := by
        rw [List.length_append] at hmax
        omega
      have hframed : (p.toChunkCursor.extend piece).Framed (stream ++ piece) piece.length := by
        obtain ⟨w, place, rfl, hat, hleads⟩ := hcame
        exact ⟨⟨w, place, List.append_assoc _ _ _, hat, hleads⟩, reading_extend h.quiet piece⟩
      rw [readAll_cons]
      refine Throws.bind ?_ fun r hr => ?_
      · rw [read_eq]
        refine Throws.bind (fun e he => ?_) fun r hr => ?_
        · exact (hframed.throws_run hmax' hpiece e he).imp_right fun h => h.append _
        · cases r with
          | npos c => exact throws_ok _
          | ends t =>
              have hends := run_ends (h.accounted piece) hr
              rw [account, assert_of (by omega)]
              exact throws_ok _
      · cases r with
        | npos p' =>
            have hset := (h.read_npos hr).1
            rw [read_eq] at hr
            obtain ⟨c | t, hc, hr⟩ := bind_eq_ok.1 hr
            · cases hr
              exact (ih hset (hframed.run_npos hmax' hpiece hc)
                (fun q hq => hpieces q (List.mem_cons_of_mem piece hq)) hmax).bind
                fun _ _ => throws_ok _
            · obtain ⟨_, -, hr⟩ := bind_eq_ok.1 hr
              cases hr
        | ends n => exact throws_ok _

/-- **A stream aborts the proxy if and only if it is misframed,** however it is cut into
buffers that `read` can return.  On every other stream all that a `ChunkedBodyParser` does is
to return or to throw. -/
theorem abort_iff (trailersEnabled : Bool) (hpieces : ∀ piece ∈ pieces, piece.length ≤ bufferSize)
    (hmax : pieces.flatten.length < maxSize) :
    (∀ e, ({ trailersEnabled } : ChunkedBodyParser).readAll pieces = .error e → e.Raised) ↔
      ¬ Misframed pieces.flatten := by
  constructor
  · rintro h ⟨w, data, behind, rest, htext, hleads, hlt, hbehind, hne⟩
    have hshort : w.length < maxSize := by
      rw [htext, List.length_append] at hmax
      omega
    have hway : OnWay ({ trailersEnabled } : ChunkedBodyParser).toChunkCursor (.chunk data.length)
        pieces.flatten (data ++ (behind ++ rest)) w.length w :=
      ⟨⟨.header, rfl, hleads⟩, htext, Nat.zero_add _, hshort⟩
    exact h _ ((settled_new trailersEnabled).readAll_arrival hway rfl
      (arrival_misframed hlt hbehind hne trailersEnabled))
  · intro h e he
    have hcame : Came [] ({ trailersEnabled } : ChunkedBodyParser).toChunkCursor :=
      ⟨[], .header, rfl, rfl, .refl _⟩
    exact ((settled_new trailersEnabled).throws_readAll hcame hpieces hmax e he).resolve_right h

/-- A stream that is not: a chunk of three bytes and the last one. -/
theorem abort_iff_wellFramed : ¬ Misframed (ascii "3\r\nabc\r\n0\r\n\r\n") := by
  have hshort : ∀ piece ∈ [ascii "3\r\nabc\r\n0\r\n\r\n"], piece.length ≤ bufferSize := by
    decide +kernel
  have h := (abort_iff false hshort (by decide +kernel)).1 fun e he => ?_
  · simpa using h
  · have hread : ({ trailersEnabled := false } : ChunkedBodyParser).readAll
        [ascii "3\r\nabc\r\n0\r\n\r\n"] = .ok (.ends 13) := by decide +kernel
    rw [hread] at he
    cases he

/-- **A chunk of two bytes with a third one behind** aborts the proxy. -/
theorem abort_longChunk :
    ¬ ∀ e, ({ trailersEnabled := false } : ChunkedBodyParser).readAll [ascii "2\r\nabc\r\n"] =
      .error e → e.Raised := by
  intro h
  exact h (.assertion (ascii "parser_buffer_.substr( current_chunk_size_, 2 ) == \"\\r\\n\""))
    (by decide +kernel)

end ChunkedBodyParser

end V2Proxy
