/-
# The record that `mm-replayserver` serves

`match_score` is zero for a record that does not match, and the size of a common prefix
for one that does.  A prefix may be empty too, but not for a record that matches: it has
the request line up to the `?`, so a request line that does not begin with one gives
every match a positive score (`commonPrefix_pos`).  The loop of `main` then keeps the
first record with the longest prefix among those that match (`replayserver_eq`).

A longest prefix is one that no other match extends: it has every prefix of the request
line that another match has (`prefix_iff`).  So a record that was made of the same request
line is served if there is one, or another one that begins with it (`serves_best`).
-/

import V2Proxy.Foundations.Best
import V2Proxy.Frontend.Replayserver

namespace V2Proxy

open Foundations

variable {env : Env} {line : Bytes}

/-- The value of the first header with the name, if there is one. -/
def savedHeader (savedRequest : HTTPRequest) (headerName : Bytes) : Option Bytes :=
  (savedRequest.headers.find? fun header => equivalentStrings header.key headerName).map (·.value)

/-- **A record that matches:** the same scheme, the same `Host` and `User-Agent` or none,
and the same request line up to the `?`. -/
structure Matches (env : Env) (line : Bytes) (record : RequestResponse) : Prop where
  scheme : record.scheme = if (env .HTTPS).isSome then .HTTPS else .HTTP
  host : savedHeader record.request (ascii "Host") = env .HTTP_HOST
  agent : savedHeader record.request (ascii "User-Agent") = env .HTTP_USER_AGENT
  line : record.request.firstLine.takeWhile (· ≠ 63) = line.takeWhile (· ≠ 63)

instance (env : Env) (line : Bytes) : DecidablePred (Matches env line) := fun record =>
  decidable_of_iff (record.scheme = (if (env .HTTPS).isSome then .HTTPS else .HTTP) ∧
      savedHeader record.request (ascii "Host") = env .HTTP_HOST ∧
      savedHeader record.request (ascii "User-Agent") = env .HTTP_USER_AGENT ∧
      record.request.firstLine.takeWhile (· ≠ 63) = line.takeWhile (· ≠ 63))
    ⟨fun h => ⟨h.1, h.2.1, h.2.2.1, h.2.2.2⟩, fun h => ⟨h.scheme, h.host, h.agent, h.line⟩⟩

/-- `header_match` compares the values, if there are any. -/
theorem headerMatch_eq (env : Env) (envVarName : Variable) (headerName : Bytes)
    (savedRequest : HTTPRequest) : headerMatch env envVarName headerName savedRequest =
      .ok (decide (savedHeader savedRequest headerName = env envVarName)) := by
  rw [headerMatch, savedHeader, HTTPMessage.hasHeader, HTTPMessage.getHeaderValue, ← List.isSome_find?]
  rcases savedRequest.headers.find? _ with _ | header
  · rcases env envVarName with _ | value <;> rfl
  · rcases env envVarName with _ | value
    · rfl
    · change Except.ok _ = _
      simp

/-- `strip_query`. -/
theorem stripQuery_eq (line : Bytes) : stripQuery line = line.takeWhile (· ≠ 63) := by
  rw [stripQuery, show ascii "?" = [63] by decide]
  rcases h : find [63] line with _ | i
  · exact (takeWhile_of_not_mem (not_mem_of_find_singleton h)).symm
  · exact (take_of_find_singleton h).1

/-- The score of a record. -/
def score (env : Env) (line : Bytes) (record : RequestResponse) : ℕ :=
  if Matches env line record then commonPrefix line record.request.firstLine else 0

/-- **`match_score` gives the common prefix with a record that matches.** -/
theorem matchScore_eq (env : Env) (line : Bytes) (record : RequestResponse) :
    matchScore env record line (env .HTTPS).isSome = .ok (score env line record) := by
  have hscheme : record.scheme = (if (env .HTTPS).isSome then .HTTPS else .HTTP) ↔
      ¬ ((env .HTTPS).isSome ∧ record.scheme ≠ .HTTPS) ∧
        ¬ (¬ (env .HTTPS).isSome ∧ record.scheme ≠ .HTTP) := by
    rcases record.scheme with _ | _ <;> rcases env .HTTPS with _ | v <;> simp
  rw [matchScore, headerMatch_eq, headerMatch_eq, ok_bind, ok_bind, stripQuery_eq, stripQuery_eq,
    score]
  by_cases h : Matches env line record
  · obtain ⟨hsecure, hplain⟩ := hscheme.1 h.scheme
    rw [if_pos h, if_neg hsecure, if_neg hplain, if_neg (by simp [h.host]), if_neg (by simp [h.agent]),
      if_neg (not_not.2 h.line.symm)]
    rfl
  · rw [if_neg h]
    split_ifs with hsecure hplain hhost hagent hline
    · rfl
    · rfl
    · rfl
    · rfl
    · rfl
    · rw [Bool.not_eq_false, decide_eq_true_eq] at hhost hagent
      exact absurd ⟨hscheme.2 ⟨hsecure, hplain⟩, hhost, hagent, (not_not.1 hline).symm⟩ h

/-- **The common prefix has every prefix that both have.** -/
theorem prefix_iff {p line line' : Bytes} (hp : p <+: line) :
    p <+: line' ↔ p.length ≤ commonPrefix line line' := by
  induction p generalizing line line' with
  | nil => exact iff_of_true List.nil_prefix (Nat.zero_le _)
  | cons x p ih =>
      obtain ⟨t, rfl⟩ := hp
      rcases line' with _ | ⟨y, line'⟩
      · simp [commonPrefix]
      · rw [List.cons_append, commonPrefix, List.cons_prefix_cons, List.length_cons]
        by_cases hxy : x = y
        · rw [if_neg (not_not.2 hxy), Nat.add_le_add_iff_right, ← ih (List.prefix_append p t)]
          exact and_iff_right hxy
        · rw [if_pos hxy]
          exact iff_of_false (fun h => hxy h.1) (Nat.not_succ_le_zero _)

/-- **A record that matches shares the first character,** if that is not the `?`. -/
theorem commonPrefix_pos {record : RequestResponse} (h : Matches env line record)
    (hne : line ≠ []) (hquery : line.head? ≠ some 63) :
    0 < commonPrefix line record.request.firstLine := by
  obtain ⟨x, line, rfl⟩ := List.exists_cons_of_ne_nil hne
  have hx : x ≠ 63 := fun hx => hquery (congrArg some hx)
  have hline := h.line
  rw [List.takeWhile_cons_of_pos (by simpa using hx)] at hline
  have hprefix : [x] <+: record.request.firstLine := by
    have hfirst := List.takeWhile_prefix (l := record.request.firstLine) fun x => decide (x ≠ 63)
    rw [hline] at hfirst
    exact (List.prefix_append [x] _).trans hfirst
  exact (prefix_iff (List.prefix_append [x] line)).1 hprefix

/-- A record has a positive score just if it matches. -/
theorem score_pos_iff {record : RequestResponse} (hne : line ≠ []) (hquery : line.head? ≠ some 63) :
    0 < score env line record ↔ Matches env line record := by
  rw [score]
  split_ifs with h
  · exact iff_of_true (commonPrefix_pos h hne hquery) h
  · exact iff_of_false (Nat.lt_irrefl 0) h

/-- The request line has two spaces in it. -/
theorem requestLine_ne_nil (h : requestLine env = .ok line) : line ≠ [] := by
  obtain ⟨method, -, h⟩ := bind_eq_ok.1 h
  obtain ⟨uri, -, h⟩ := bind_eq_ok.1 h
  obtain ⟨protocol, -, h⟩ := bind_eq_ok.1 h
  obtain rfl := Except.ok.inj h
  intro hnil
  exact absurd (List.append_eq_nil_iff.1 (List.append_eq_nil_iff.1 hnil).1).2 (by decide)

/-- A record that is read is compared with the best one. -/
theorem matchFile_ok (env : Env) (line : Bytes) (best : ℕ × Option RequestResponse)
    (record : RequestResponse) : matchFile env line (env .HTTPS).isSome best (.ok record) =
      .ok (better (score env line) best record) := by
  rw [matchFile, ok_bind, matchScore_eq, ok_bind]
  rfl

/-- **`main` serves the first of the records with the largest score.** -/
theorem replayserver_eq {recordings : Recordings} {workingDirectory recordingDirectory : Bytes}
    {records : List RequestResponse} (hchdir : env .MAHIMAHI_CHDIR = some workingDirectory)
    (hrecord : env .MAHIMAHI_RECORD_PATH = some recordingDirectory)
    (hline : requestLine env = .ok line)
    (hfiles : recordings workingDirectory recordingDirectory = .ok (records.map .ok)) :
    replayserver recordings env = .ok (best (score env line) records) := by
  have hround : ∀ best record, matchFile env line (env .HTTPS).isSome best (.ok record) =
      pure (better (score env line) best record) := matchFile_ok env line
  rw [replayserver, safeGetenv, hchdir, ok_bind, safeGetenv, hrecord, ok_bind, hline, ok_bind, hfiles,
    ok_bind, List.foldlM_map]
  simp only [hround, List.foldlM_pure, foldl_better]
  change Except.ok _ = _
  rcases hbest : best (score env line) records with _ | record
  · rfl
  · rw [if_pos]
    exact (best_eq_some hbest).2.1

/-- **The best match is served.**  Something is served just if some record matches; it is
a record that matches and has every prefix of the request line that another match has, so
it begins with the whole line if another match is that line; and in another order of the
directory a record with the same common prefix is served. -/
theorem serves_best {recordings : Recordings} {workingDirectory recordingDirectory : Bytes}
    {records : List RequestResponse} (hchdir : env .MAHIMAHI_CHDIR = some workingDirectory)
    (hrecord : env .MAHIMAHI_RECORD_PATH = some recordingDirectory)
    (hfiles : recordings workingDirectory recordingDirectory = .ok (records.map .ok))
    (hline : requestLine env = .ok line) (hquery : line.head? ≠ some 63) :
    ∃ served, replayserver recordings env = .ok served ∧
      (served.isSome ↔ ∃ record ∈ records, Matches env line record) ∧
      ∀ record, served = some record → record ∈ records ∧ Matches env line record ∧
        (∀ other ∈ records, Matches env line other →
          commonPrefix line other.request.firstLine ≤ commonPrefix line record.request.firstLine) ∧
        (∀ other ∈ records, Matches env line other → other.request.firstLine = line →
          line <+: record.request.firstLine) ∧
        ∀ (recordings' : Recordings) (records' : List RequestResponse), records'.Perm records →
          recordings' workingDirectory recordingDirectory = .ok (records'.map .ok) →
          ∃ record', replayserver recordings' env = .ok (some record') ∧
            commonPrefix line record'.request.firstLine =
              commonPrefix line record.request.firstLine := by
  have hne := requestLine_ne_nil hline
  refine ⟨best (score env line) records, replayserver_eq hchdir hrecord hline hfiles, ?_,
    fun record hserved => ?_⟩
  · rw [isSome_best_iff]
    simp only [score_pos_iff hne hquery]
  obtain ⟨hmem, hpos, hbest⟩ := best_eq_some hserved
  have hmatches := (score_pos_iff hne hquery).1 hpos
  have hlongest : ∀ other ∈ records, Matches env line other →
      commonPrefix line other.request.firstLine ≤ commonPrefix line record.request.firstLine := by
    intro other hother h
    have hle := hbest other hother
    rwa [score, if_pos h, score, if_pos hmatches] at hle
  refine ⟨hmem, hmatches, hlongest, fun other hother h hsame => ?_,
    fun recordings' records' hperm hfiles' => ?_⟩
  · rw [prefix_iff List.prefix_rfl]
    refine le_trans ?_ (hlongest other hother h)
    rw [hsame, ← prefix_iff List.prefix_rfl]
  · obtain ⟨record', hserved', hscore⟩ := best_perm hperm hserved
    have hmatches' := (score_pos_iff hne hquery).1 (best_eq_some hserved').2.1
    rw [score, if_pos hmatches', score, if_pos hmatches] at hscore
    exact ⟨record', by rw [replayserver_eq hchdir hrecord hline hfiles', hserved'], hscore⟩

/-- What the environment says of `GET /?q HTTP/1.1` for the host `a`. -/
def queryA : Env
  | .MAHIMAHI_CHDIR => some (ascii "/")
  | .MAHIMAHI_RECORD_PATH => some (ascii "r/")
  | .REQUEST_METHOD => some (ascii "GET")
  | .REQUEST_URI => some (ascii "/?q")
  | .SERVER_PROTOCOL => some (ascii "HTTP/1.1")
  | .HTTP_HOST => some (ascii "a")
  | _ => none

/-- The record of a request to the host `a`. -/
def recordOf (firstLine : Bytes) : RequestResponse :=
  { recordA with request := { recordA.request with firstLine := firstLine } }

/-- Of two records that match, the one with the same query is served. -/
theorem serves_best_sameQuery : ∃ served, replayserver (fun _ _ => .ok
      ([recordOf (ascii "GET /?p HTTP/1.1"), recordOf (ascii "GET /?q HTTP/1.1")].map .ok)) queryA =
        .ok served ∧
      ∀ record, served = some record → ascii "GET /?q HTTP/1.1" <+: record.request.firstLine := by
  have hmatches : Matches queryA (ascii "GET /?q HTTP/1.1") (recordOf (ascii "GET /?q HTTP/1.1")) := by
    decide +kernel
  have hline : requestLine queryA = .ok (ascii "GET /?q HTTP/1.1") := by decide +kernel
  obtain ⟨served, hserved, -, hbest⟩ := @serves_best queryA _
    (fun _ _ => .ok
      ([recordOf (ascii "GET /?p HTTP/1.1"), recordOf (ascii "GET /?q HTTP/1.1")].map .ok))
    _ _ _ rfl rfl rfl hline (by decide +kernel)
  refine ⟨served, hserved, fun record h => ?_⟩
  exact (hbest record h).2.2.2.1 _ (List.mem_cons_of_mem _ List.mem_cons_self) hmatches rfl

end V2Proxy
