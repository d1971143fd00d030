/-
# `ChunkedBodyParser`

`src/http/chunked_parser.hh` and `src/http/chunked_parser.cc`.  The parser keeps
its own copy of the bytes it has not parsed yet (`parser_buffer_`) and two
counters, `parsed_so_far_` and `acked_so_far_`; `read` returns how much of its
argument belongs to the body, or `npos` when all of it does.

The members but `acked_so_far_` are the `ChunkCursor`: the position in the chunk
grammar.  `acked_so_far_` does not steer the loop, it only shifts what `read`
returns, so the loop of `read` is the loop of the cursor (`ChunkCursor.loop`)
followed by the accounting (`ChunkCursor.account`): `read_eq`.
-/

import V2Proxy.Util.Ezio

namespace V2Proxy

open Foundations

/-- `enum {CHUNK_HDR, CHUNK, TRAILER} state_`. -/
inductive ChunkState where
  | chunkHdr
  | chunk
  | trailer
deriving DecidableEq

/-- The members of `ChunkedBodyParser` that steer its loop. -/
structure ChunkCursor where
  parserBuffer : Bytes := []
  currentChunkSize : UInt32 := 0
  parsedSoFar : ℕ := 0
  state : ChunkState := .chunkHdr
  trailersEnabled : Bool
deriving DecidableEq

/-- `ChunkedBodyParser`: the cursor, and how much of the body has been acknowledged. -/
structure ChunkedBodyParser extends ChunkCursor where
  ackedSoFar : ℕ := 0
deriving DecidableEq

/-- What `read` returns: `npos` and the parser to go on with, or the number of
bytes after which the body ends.  After that the source never uses the parser
again, so it is not part of the result. -/
inductive ReadOutcome (P : Type) where
  | npos (parser : P)
  | ends (amount : ℕ)
deriving DecidableEq

/-- `ChunkedBodyParser::get_chunk_size`. -/
def getChunkSize (chunkHdr : Bytes) : Except Fault UInt32 := do
  let tail ← substr chunkHdr (sizeSub chunkHdr.length 2) 2
  assert (tail = CRLF) "chunk_hdr.substr( chunk_hdr.length() - 2, 2 ) == \"\\r\\n\""
  let pos := match find (ascii ";") chunkHdr with
    | some pos => some pos
    | none => find CRLF chunkHdr
  match pos with
  | none => .error (.assertion (ascii "pos != string::npos"))
  | some pos =>
      let hexString := chunkHdr.take pos
      let hexString := match find (ascii " ") hexString with
        | some spaceLoc => hexString.take spaceLoc
        | none => hexString
      let size ← myatoi hexString 16
      return toUInt32 size

namespace ChunkCursor

/-- The delimiter that `TRAILER` waits for. -/
def needle (c : ChunkCursor) : Bytes := if c.trailersEnabled then CRLF ++ CRLF else CRLF

/-- The `CHUNK_HDR` case once the line ending is at `it`. -/
def takeHeader (c : ChunkCursor) (it : ℕ) : Except Fault ChunkCursor := do
  let size ← getChunkSize (c.parserBuffer.take (it + 2))
  return { c with
    currentChunkSize := size
    state := if size = 0 then .trailer else .chunk
    parsedSoFar := c.parsedSoFar + (it + 2)
    parserBuffer := c.parserBuffer.drop (it + 2) }

/-- The `CHUNK` case once enough bytes are there.  `current_chunk_size_ + 2` is
a `uint32_t`. -/
def takeChunk (c : ChunkCursor) : Except Fault ChunkCursor := do
  let tail ← substr c.parserBuffer c.currentChunkSize.toNat 2
  assert (tail = CRLF) "parser_buffer_.substr( current_chunk_size_, 2 ) == \"\\r\\n\""
  return { c with
    state := .chunkHdr
    parsedSoFar := c.parsedSoFar + (c.currentChunkSize + 2).toNat
    parserBuffer := c.parserBuffer.drop (c.currentChunkSize + 2).toNat }

end ChunkCursor

namespace ChunkedBodyParser

/-- `acked_so_far_ += input_buffer.length()`. -/
def ack (p : ChunkedBodyParser) (inputLength : ℕ) : ChunkedBodyParser :=
  { p with ackedSoFar := p.ackedSoFar + inputLength }

/-- `ChunkedBodyParser::compute_ack_size`. -/
def computeAckSize (p : ChunkedBodyParser) (needle : Bytes) (inputSize : ℕ) :
    Except Fault (ReadOutcome ChunkedBodyParser) :=
  match find needle p.parserBuffer with
  | some loc => do
      let parsed := p.parsedSoFar + (loc + needle.length)
      assert (p.ackedSoFar < parsed) "parsed_so_far_ > acked_so_far_"
      return .ends (parsed - p.ackedSoFar)
  | none => return .npos (p.ack inputSize)

/-- One round of the `while` loop of `ChunkedBodyParser::read`. -/
def readStep (inputLength : ℕ) (p : ChunkedBodyParser) :
    Except Fault (ChunkedBodyParser ⊕ ReadOutcome ChunkedBodyParser) :=
  if p.parserBuffer = [] then return .inr (.npos (p.ack inputLength))
  else
    match p.state with
    | .chunkHdr =>
        match find CRLF p.parserBuffer with
        | some it => do
            let c ← p.takeHeader it
            return .inl { c with ackedSoFar := p.ackedSoFar }
        | none => return .inr (.npos (p.ack inputLength))
    | .chunk =>
        if (p.currentChunkSize + 2).toNat ≤ p.parserBuffer.length then do
          let c ← p.takeChunk
          return .inl { c with ackedSoFar := p.ackedSoFar }
        else return .inr (.npos (p.ack inputLength))
    | .trailer => do
        let r ← p.computeAckSize p.needle inputLength
        return .inr r

end ChunkedBodyParser

namespace ChunkCursor

/-- The bytes `old` are not enough for a round. -/
def Quiet (c : ChunkCursor) (old : Bytes) : Prop :=
  match c.state with
  | .chunkHdr => find CRLF old = none
  | .chunk => old.length < (c.currentChunkSize + 2).toNat ∨ old = []
  | .trailer => find c.needle old = none

/-- Every round takes bytes off the buffer, or takes the cursor out of `CHUNK`. -/
def measure (c : ChunkCursor) : ℕ :=
  2 * c.parserBuffer.length + if c.state = .chunk then 1 else 0

/-- What reading a chunk header leaves. -/
theorem takeHeader_eq {c c' : ChunkCursor} {it : ℕ} (h : c.takeHeader it = .ok c') :
    ∃ size, c' = { c with
      currentChunkSize := size
      state := if size = 0 then .trailer else .chunk
      parsedSoFar := c.parsedSoFar + (it + 2)
      parserBuffer := c.parserBuffer.drop (it + 2) } := by
  obtain ⟨size, -, h⟩ := bind_eq_ok.1 h
  exact ⟨size, (Except.ok.inj h).symm⟩

/-- What passing over a chunk leaves. -/
theorem takeChunk_eq {c c' : ChunkCursor} (h : c.takeChunk = .ok c') :
    c' = { c with
      state := .chunkHdr
      parsedSoFar := c.parsedSoFar + (c.currentChunkSize + 2).toNat
      parserBuffer := c.parserBuffer.drop (c.currentChunkSize + 2).toNat } := by
  obtain ⟨tail, -, h⟩ := bind_eq_ok.1 h
  obtain ⟨-, -, h⟩ := bind_eq_ok.1 h
  exact (Except.ok.inj h).symm

/-- The round of `read`, without the accounting: `ends t` says that the body
ends when `t` bytes have been parsed. -/
def step (c : ChunkCursor) : Except Fault (ChunkCursor ⊕ ReadOutcome ChunkCursor) :=
  if c.parserBuffer = [] then return .inr (.npos c)
  else
    match c.state with
    | .chunkHdr =>
        match find CRLF c.parserBuffer with
        | some it => do
            let c' ← c.takeHeader it
            return .inl c'
        | none => return .inr (.npos c)
    | .chunk =>
        if (c.currentChunkSize + 2).toNat ≤ c.parserBuffer.length then do
          let c' ← c.takeChunk
          return .inl c'
        else return .inr (.npos c)
    | .trailer =>
        match find c.needle c.parserBuffer with
        | some loc => return .inr (.ends (c.parsedSoFar + (loc + c.needle.length)))
        | none => return .inr (.npos c)

section

variable {c c' : ChunkCursor}

/-- Nothing is left to read. -/
theorem step_nil (h : c.parserBuffer = []) : c.step = .ok (.inr (.npos c)) := if_pos h

/-- A step in front of a chunk header. -/
theorem step_chunkHdr (hnil : c.parserBuffer ≠ []) (h : c.state = .chunkHdr) :
    c.step =
      match find CRLF c.parserBuffer with
      | some it => c.takeHeader it >>= fun c' => .ok (.inl c')
      | none => .ok (.inr (.npos c)) := by
  rw [step, if_neg hnil, h]
  rfl

/-- A step in a chunk. -/
theorem step_chunk (hnil : c.parserBuffer ≠ []) (h : c.state = .chunk) :
    c.step =
      if (c.currentChunkSize + 2).toNat ≤ c.parserBuffer.length then
        c.takeChunk >>= fun c' => .ok (.inl c')
      else .ok (.inr (.npos c)) := by
  rw [step, if_neg hnil, h]
  rfl

/-- A step in the trailer. -/
theorem step_trailer (hnil : c.parserBuffer ≠ []) (h : c.state = .trailer) :
    c.step =
      match find c.needle c.parserBuffer with
      | some loc => .ok (.inr (.ends (c.parsedSoFar + (loc + c.needle.length))))
      | none => .ok (.inr (.npos c)) := by
  rw [step, if_neg hnil, h]
  rfl

/-- **What a round can do when it goes on:** it takes `n` bytes off the buffer.
They include every byte of `old` that was not enough for a round. -/
theorem step_next (h : c.step = .ok (.inl c')) :
    ∃ n, n ≤ c.parserBuffer.length ∧ c'.parserBuffer = c.parserBuffer.drop n ∧
      c'.parsedSoFar = c.parsedSoFar + n ∧ c'.trailersEnabled = c.trailersEnabled ∧
      c'.measure < c.measure ∧
      ∀ old new, c.parserBuffer = old ++ new → c.Quiet old → old.length ≤ n := by
  by_cases hnil : c.parserBuffer = []
  · rw [step_nil hnil] at h
    cases h
  cases hst : c.state with
  | chunkHdr =>
      rw [step_chunkHdr hnil hst] at h
      rcases hit : find CRLF c.parserBuffer with _ | it
      · rw [hit] at h
        cases h
      · rw [hit] at h
        obtain ⟨c₁, hc₁, h⟩ := bind_eq_ok.1 h
        cases h
        obtain ⟨size, rfl⟩ := takeHeader_eq hc₁
        have hlen := add_length_le_of_find hit
        rw [length_CRLF] at hlen
        refine ⟨it + 2, hlen, rfl, rfl, rfl, ?_, fun old new hbuf hq => ?_⟩
        · simp only [measure, List.length_drop, hst]
          split_ifs <;> omega
        · rw [Quiet, hst] at hq
          rw [hbuf] at hit
          exact (length_lt_of_find_append hq hit).le
  | chunk =>
      rw [step_chunk hnil hst] at h
      split_ifs at h with hneed
      · obtain ⟨c₁, hc₁, h⟩ := bind_eq_ok.1 h
        cases h
        obtain rfl := takeChunk_eq hc₁
        refine ⟨_, hneed, rfl, rfl, rfl, ?_, fun old new hbuf hq => ?_⟩
        · simp only [measure, List.length_drop, hst, if_true, reduceCtorEq, if_false]
          omega
        · rw [Quiet, hst] at hq
          rcases hq with hq | rfl
          · exact hq.le
          · exact Nat.zero_le _
      · cases h
  | trailer =>
      rw [step_trailer hnil hst] at h
      rcases hloc : find c.needle c.parserBuffer with _ | loc <;> rw [hloc] at h <;> cases h

/-- The end of the trailer is some text. -/
theorem needle_ne_nil (c : ChunkCursor) : c.needle ≠ [] := by
  rw [needle]
  split_ifs <;> decide

/-- Nothing has nothing to find. -/
theorem quiet_nil (c : ChunkCursor) : c.Quiet [] := by
  rw [Quiet]
  split
  · rfl
  · exact Or.inr rfl
  · rw [find_eq_none_iff, List.infix_nil]
    exact c.needle_ne_nil

/-- Where a round asks for more bytes, the cursor stays and its buffer is quiet. -/
theorem step_npos (h : c.step = .ok (.inr (.npos c'))) : c' = c ∧ c.Quiet c.parserBuffer := by
  by_cases hnil : c.parserBuffer = []
  · rw [step_nil hnil] at h
    cases h
    exact ⟨rfl, hnil ▸ c.quiet_nil⟩
  cases hst : c.state with
  | chunkHdr =>
      rw [step_chunkHdr hnil hst] at h
      rcases hit : find CRLF c.parserBuffer with _ | it
      · rw [hit] at h
        cases h
        exact ⟨rfl, by rw [Quiet, hst]; exact hit⟩
      · rw [hit] at h
        obtain ⟨c₁, -, h⟩ := bind_eq_ok.1 h
        cases h
  | chunk =>
      rw [step_chunk hnil hst] at h
      split_ifs at h with hneed
      · obtain ⟨c₁, -, h⟩ := bind_eq_ok.1 h
        cases h
      · cases h
        exact ⟨rfl, by rw [Quiet, hst]; exact Or.inl (by omega)⟩
  | trailer =>
      rw [step_trailer hnil hst] at h
      rcases hloc : find c.needle c.parserBuffer with _ | loc
      · rw [hloc] at h
        cases h
        exact ⟨rfl, by rw [Quiet, hst]; exact hloc⟩
      · rw [hloc] at h
        cases h

/-- Where a round finds the end of the body, it is right after the delimiter. -/
theorem step_ends {t : ℕ} (h : c.step = .ok (.inr (.ends t))) :
    c.state = .trailer ∧ ∃ loc, find c.needle c.parserBuffer = some loc ∧
      t = c.parsedSoFar + (loc + c.needle.length) := by
  by_cases hnil : c.parserBuffer = []
  · rw [step_nil hnil] at h
    cases h
  cases hst : c.state with
  | chunkHdr =>
      rw [step_chunkHdr hnil hst] at h
      rcases hit : find CRLF c.parserBuffer with _ | it
      · rw [hit] at h
        cases h
      · rw [hit] at h
        obtain ⟨c₁, -, h⟩ := bind_eq_ok.1 h
        cases h
  | chunk =>
      rw [step_chunk hnil hst] at h
      split_ifs at h with hneed
      · obtain ⟨c₁, -, h⟩ := bind_eq_ok.1 h
        cases h
      · cases h
  | trailer =>
      rw [step_trailer hnil hst] at h
      rcases hloc : find c.needle c.parserBuffer with _ | loc
      · rw [hloc] at h
        cases h
      · rw [hloc] at h
        cases h
        exact ⟨rfl, loc, rfl, rfl⟩

/-- The loop of `read`, without the accounting. -/
def loop : Loop Fault ChunkCursor (ReadOutcome ChunkCursor) where
  step := step
  measure := measure
  decreases h := (step_next h).choose_spec.2.2.2.2.1

end

end ChunkCursor

end V2Proxy
