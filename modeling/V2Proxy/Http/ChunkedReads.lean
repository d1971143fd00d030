/-
# Reading a chunked body, buffer after buffer

`readAll` gives the buffers of a stream to one `ChunkedBodyParser` until one completes the
body.  As long as none does, the parser is settled, so its counters add up and another
round would change nothing; the buffer that completes the body contains its end
(`reads_accounted`).
-/

import V2Proxy.Http.ParserFaults

namespace V2Proxy

open Foundations

/-- What `get_chunk_size` and the `CHUNK` case assert. -/
def framingAssertions : List Bytes :=
  [ascii "chunk_hdr.substr( chunk_hdr.length() - 2, 2 ) == \"\\r\\n\"",
    ascii "pos != string::npos",
    ascii "parser_buffer_.substr( current_chunk_size_, 2 ) == \"\\r\\n\""]

/-- An exception, or a failed assertion about the framing of a chunk. -/
def FramingFault (e : Fault) : Prop :=
  e.Raised ∨ ∃ text ∈ framingAssertions, e = .assertion text

/-- `x` returns, throws an exception, or fails an assertion about the framing of a chunk. -/
abbrev Framing {α : Type} (x : Except Fault α) : Prop := Throws FramingFault x

theorem Raises.framing {α : Type} {x : Except Fault α} (h : Raises x) : Framing x :=
  h.mono fun _ he => Or.inl he

theorem framing_assert {p : Prop} [Decidable p] {text : String}
    (h : ascii text ∈ framingAssertions) : Framing (assert p text) := by
  rw [assert]
  exact throws_ite (fun _ => throws_ok _) fun _ => throws_error.2 (Or.inr ⟨_, h, rfl⟩)

theorem framing_getChunkSize (chunkHdr : Bytes) : Framing (getChunkSize chunkHdr) := by
  refine (raises_substr _ _ 2).framing.bind fun _ _ => (framing_assert (by simp [framingAssertions])).bind
    fun _ _ => ?_
  dsimp only
  split
  · exact throws_error.2 (Or.inr ⟨_, by simp [framingAssertions], rfl⟩)
  · exact (raises_myatoi _ 16).framing.bind fun _ _ => throws_pure _

namespace ChunkCursor

variable {c : ChunkCursor}

/-- The faults of a round. -/
theorem framing_step (c : ChunkCursor) : Framing c.step := by
  rw [step]
  refine throws_ite (fun _ => throws_pure _) fun _ => ?_
  split
  · split
    · refine Throws.bind ((framing_getChunkSize _).bind fun _ _ => throws_pure _) fun _ _ => ?_
      exact throws_pure _
    · exact throws_pure _
  · refine throws_ite (fun _ => ?_) fun _ => throws_pure _
    exact Throws.bind ((raises_substr _ _ 2).framing.bind fun _ _ =>
      (framing_assert (by simp [framingAssertions])).bind fun _ _ => throws_pure _) fun _ _ =>
        throws_pure _
  · split <;> exact throws_pure _

/-- **Where the buffer is quiet, a round changes nothing** and asks for more. -/
theorem step_of_quiet (h : c.Quiet c.parserBuffer) : c.step = .ok (.inr (.npos c)) := by
  by_cases hnil : c.parserBuffer = []
  · exact step_nil hnil
  rw [Quiet] at h
  cases hst : c.state with
  | chunkHdr =>
      rw [hst] at h
      have hfind : find CRLF c.parserBuffer = none := h
      rw [step_chunkHdr hnil hst, hfind]
  | chunk =>
      rw [hst] at h
      have hshort : c.parserBuffer.length < (c.currentChunkSize + 2).toNat :=
        Or.resolve_right h hnil
      rw [step_chunk hnil hst, if_neg (by omega)]
  | trailer =>
      rw [hst] at h
      have hfind : find c.needle c.parserBuffer = none := h
      rw [step_trailer hnil hst, hfind]

end ChunkCursor

namespace ChunkedBodyParser

variable {p p' : ChunkedBodyParser} {pieces : List Bytes}

/-- Reads of the buffers, one after another, up to the one that completes the body: how much
of them belongs to it. -/
def readAll (p : ChunkedBodyParser) :
    List Bytes → Except Fault (ReadOutcome ChunkedBodyParser)
  | [] => .ok (.npos p)
  | piece :: pieces => do
      match ← p.read piece with
      | .npos p' => return shift piece.length (← p'.readAll pieces)
      | .ends n => return .ends n

/-- The first read decides how the run goes on. -/
theorem readAll_cons (p : ChunkedBodyParser) (piece : Bytes) (pieces : List Bytes) :
    p.readAll (piece :: pieces) = p.read piece >>= fun
      | .npos p' => p'.readAll pieces >>= fun r => .ok (shift piece.length r)
      | .ends n => .ok (.ends n) := rfl

/-- A body that is complete after `n` bytes of the later buffers. -/
theorem shift_eq_npos {n : ℕ} {r : ReadOutcome ChunkedBodyParser} (h : shift n r = .npos p) :
    r = .npos p := by
  cases r with
  | npos p' =>
      cases h
      rfl
  | ends k => cases h

/-- **A run of reads leaves a settled parser** that has acknowledged all buffers. -/
theorem Settled.readAll_npos (h : p.Settled) (hr : p.readAll pieces = .ok (.npos p')) :
    p'.Settled ∧ p'.ackedSoFar = p.ackedSoFar + pieces.flatten.length := by
  induction pieces generalizing p with
  | nil =>
      cases hr
      exact ⟨h, by simp⟩
  | cons piece pieces ih =>
      rw [readAll_cons] at hr
      obtain ⟨p₁ | n, hread, hr⟩ := bind_eq_ok.1 hr
      · obtain ⟨r, hrest, hr⟩ := bind_eq_ok.1 hr
        obtain rfl := shift_eq_npos (Except.ok.inj hr)
        obtain ⟨h₁, hacked₁⟩ := h.read_npos hread
        obtain ⟨h', hacked⟩ := ih h₁ hrest
        refine ⟨h', ?_⟩
        rw [hacked, hacked₁, List.flatten_cons, List.length_append, Nat.add_assoc]
      · cases hr

/-- A settled parser waits, whatever the length of the input it is told. -/
theorem Settled.readStep_eq (h : p.Settled) (n : ℕ) :
    p.readStep n = .ok (.inr (.npos (p.ack n))) := by
  rw [ChunkedBodyParser.readStep_eq, ChunkCursor.step_of_quiet h.quiet]
  rfl

/-- **A read from a settled parser fails by an exception or an assertion about a CRLF.** -/
theorem Settled.framing_read (h : p.Settled) (a : Bytes) : Framing (p.read a) := by
  rw [read_eq]
  refine Throws.bind (Loop.run_throws (L := ChunkCursor.loop) ChunkCursor.framing_step _)
    fun r hr => ?_
  cases r with
  | npos c => exact throws_ok _
  | ends t =>
      have hends := ChunkCursor.run_ends (h.accounted a) hr
      rw [account, assert_of (by omega)]
      exact throws_ok _

/-- **The accounting of a chunked body.**  As long as the body is not complete, the counters
say what the parser has been given, and no further round is possible on what it holds.  The
buffer that completes the body contains its end, so that `pop_bytes` has what it is asked
for, and `parsed_so_far_ > acked_so_far_` holds there. -/
theorem reads_accounted (trailersEnabled : Bool)
    (hread : ({ trailersEnabled } : ChunkedBodyParser).readAll pieces = .ok (.npos p)) :
    p.ackedSoFar = pieces.flatten.length ∧
    p.parsedSoFar + p.parserBuffer.length = p.ackedSoFar ∧
    (∀ n, p.readStep n = .ok (.inr (.npos (p.ack n)))) ∧
    ∀ a, p.read a ≠ .error (.assertion (ascii "parsed_so_far_ > acked_so_far_")) ∧
      ∀ n, p.read a = .ok (.ends n) →
        1 ≤ n ∧ n ≤ a.length ∧ HTTPMessageSequence.popBytes a n = .ok (a.drop n) := by
  obtain ⟨hset, hacked⟩ := (settled_new trailersEnabled).readAll_npos hread
  refine ⟨hacked.trans (Nat.zero_add _), hset.acked.symm, hset.readStep_eq, fun a => ⟨?_, ?_⟩⟩
  · intro herror
    rcases hset.framing_read a _ herror with hraised | ⟨text, hmem, htext⟩
    · exact hraised
    · obtain rfl := Fault.assertion.inj htext
      exact absurd hmem (by decide +kernel)
  · intro n hends
    obtain ⟨hpos, hle⟩ := hset.read_ends hends
    exact ⟨hpos, hle, HTTPMessageSequence.popBytes_eq_ok.2 ⟨hle, rfl⟩⟩

/-- After a chunk header that is cut in the middle, the end is found in the next buffer. -/
theorem reads_accounted_cut :
    ∃ p, ({ trailersEnabled := false } : ChunkedBodyParser).readAll [ascii "3;", ascii "x"] =
        .ok (.npos p) ∧ p.ackedSoFar = 3 ∧ p.parserBuffer = ascii "3;x" ∧
      p.read (ascii "\r\nabc\r\n0\r\n\r\nHTTP") = .ok (.ends 12) ∧
      HTTPMessageSequence.popBytes (ascii "\r\nabc\r\n0\r\n\r\nHTTP") 12 = .ok (ascii "HTTP") := by
  have hread : ({ trailersEnabled := false } : ChunkedBodyParser).readAll [ascii "3;", ascii "x"] =
      .ok (.npos { parserBuffer := ascii "3;x", trailersEnabled := false, ackedSoFar := 3 }) := by
    decide +kernel
  have hends : ({ parserBuffer := ascii "3;x", trailersEnabled := false, ackedSoFar := 3 } :
      ChunkedBodyParser).read (ascii "\r\nabc\r\n0\r\n\r\nHTTP") = .ok (.ends 12) := by
    decide +kernel
  refine ⟨_, hread, rfl, rfl, hends, ?_⟩
  rw [(((reads_accounted false hread).2.2.2 _).2 12 hends).2.2]
  decide +kernel

end ChunkedBodyParser

end V2Proxy
