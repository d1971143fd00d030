/-
# `mm-replayserver`

`src/frontend/replayserver.cc`: the program that `mod_deepcgi` runs for each request.
It learns of the request from environment variables only, compares it with every record
of the recording and answers with the best match.

What it learns should be the request and nothing else.  It is, as long as each request
sets every variable or the requests before it have left the same in those that it does
not set (`seen_iff`).

That it must not run as root is not modelled, nor the text of its answers.
-/

import V2Proxy.Frontend.ModDeepcgi
import V2Proxy.Http.HTTPRecord
import V2Proxy.Http.HTTPResponse

namespace V2Proxy

open Foundations

/-- What the program reads of a `RequestResponse`. -/
structure RequestResponse where
  scheme : Scheme
  request : HTTPRequest
  response : HTTPResponse
deriving DecidableEq

/-- `safe_getenv`. -/
def safeGetenv (env : Env) (key : Variable) : Except Fault Bytes :=
  match env key with
  | some value => .ok value
  | none => .error (.runtimeError (ascii "missing environment variable: " ++ key.name))

/-- `header_match`. -/
def headerMatch (env : Env) (envVarName : Variable) (headerName : Bytes)
    (savedRequest : HTTPRequest) : Except Fault Bool :=
  match env envVarName, savedRequest.hasHeader headerName with
  | none, false => return true
  | some envValue, true => return (← savedRequest.getHeaderValue headerName) = envValue
  | _, _ => return false

/-- `strip_query`. -/
def stripQuery (requestLine : Bytes) : Bytes :=
  match find (ascii "?") requestLine with
  | none => requestLine
  | some index => requestLine.take index

/-- The loop at the end of `match_score`: the size of the common prefix.  It is an
`unsigned int` in the source, which it fits: the saved first line is a field of a protobuf
message, and these are shorter than `2 ^ 31` bytes. -/
def commonPrefix : Bytes → Bytes → ℕ
  | a :: as, b :: bs => if a ≠ b then 0 else commonPrefix as bs + 1
  | _, _ => 0

/-- `match_score`. -/
def matchScore (env : Env) (savedRecord : RequestResponse) (requestLine : Bytes)
    (isHttps : Bool) : Except Fault ℕ := do
  let savedRequest := savedRecord.request
  if isHttps ∧ savedRecord.scheme ≠ .HTTPS then return 0
  else if ¬ isHttps ∧ savedRecord.scheme ≠ .HTTP then return 0
  else if (← headerMatch env .HTTP_HOST (ascii "Host") savedRequest) = false then return 0
  else if (← headerMatch env .HTTP_USER_AGENT (ascii "User-Agent") savedRequest) = false then
    return 0
  else if stripQuery requestLine ≠ stripQuery savedRequest.firstLine then return 0
  else return commonPrefix requestLine savedRequest.firstLine

/-- What the files hold: `chdir( working_directory )`, then what reading each file of
`recording_directory` gives. -/
abbrev Recordings : Type := Bytes → Bytes → Except Fault (List (Except Fault RequestResponse))

/-- `request_line`. -/
def requestLine (env : Env) : Except Fault Bytes := do
  return (← safeGetenv env .REQUEST_METHOD) ++ ascii " " ++ (← safeGetenv env .REQUEST_URI) ++
    ascii " " ++ (← safeGetenv env .SERVER_PROTOCOL)

/-- A round of the loop over the files: `best_score` and `best_match`. -/
def matchFile (env : Env) (line : Bytes) (isHttps : Bool)
    (best : ℕ × Option RequestResponse) (file : Except Fault RequestResponse) :
    Except Fault (ℕ × Option RequestResponse) := do
  let currentRecord ← file
  let score ← matchScore env currentRecord line isHttps
  return if best.1 < score then (score, some currentRecord) else best

/-- `main`: the record whose response is the answer, or `none` if there is no acceptable
match. -/
def replayserver (recordings : Recordings) (env : Env) : Except Fault (Option RequestResponse) := do
  let workingDirectory ← safeGetenv env .MAHIMAHI_CHDIR
  let recordingDirectory ← safeGetenv env .MAHIMAHI_RECORD_PATH
  let line ← requestLine env
  let isHttps := (env .HTTPS).isSome
  let files ← recordings workingDirectory recordingDirectory
  let best ← files.foldlM (matchFile env line isHttps) (0, none)
  return if 0 < best.1 then best.2 else none

/-! ### What the program learns of a request -/

/-- What `mm-replayserver` sees of a request. -/
structure Seen where
  httpHost : Option Bytes
  httpUserAgent : Option Bytes
  https : Option Bytes
  requestLine : Except Fault Bytes

/-- What `mm-replayserver` sees in an environment. -/
def seen (env : Env) : Seen where
  httpHost := env .HTTP_HOST
  httpUserAgent := env .HTTP_USER_AGENT
  https := env .HTTPS
  requestLine := requestLine env

/-- **The answer depends on two directories and on what is seen of the request.** -/
theorem replayserver_congr {env env' : Env} (recordings : Recordings)
    (hchdir : env .MAHIMAHI_CHDIR = env' .MAHIMAHI_CHDIR)
    (hrecord : env .MAHIMAHI_RECORD_PATH = env' .MAHIMAHI_RECORD_PATH)
    (hseen : seen env = seen env') : replayserver recordings env = replayserver recordings env' := by
  obtain ⟨hhost, hagent, hhttps, hline⟩ := Seen.mk.inj hseen
  have hmatch : ∀ (record : RequestResponse) (line : Bytes) (isHttps : Bool),
      matchScore env record line isHttps = matchScore env' record line isHttps := by
    intro record line isHttps
    simp only [matchScore, headerMatch, hhost, hagent]
  have hfile : matchFile env = matchFile env' := by
    funext line isHttps best file
    simp only [matchFile, hmatch]
  simp only [replayserver, safeGetenv, hchdir, hrecord, hline, hhttps, hfile]

/-- **What is seen of a request does not depend on the requests before it just if** it
has a user agent or they have left the same one, and it is HTTPS or they have left
`HTTPS` the same.  Then nor does the answer. -/
theorem seen_iff {config : DeepcgiConfig} {initial env env' : Env} {past past' : List RequestRec}
    {r : RequestRec} (h : replayEnv config initial past r = .ok (some env))
    (h' : replayEnv config initial past' r = .ok (some env')) :
    (seen env = seen env' ∧
        ∀ recordings, replayserver recordings env = replayserver recordings env') ↔
      (r.userAgent ≠ none ∨
        past.foldl (fun v r => r.leaveAgent v) (initial .HTTP_USER_AGENT) =
          past'.foldl (fun v r => r.leaveAgent v) (initial .HTTP_USER_AGENT)) ∧
      (r.isHttps = true ∨
        past.foldl (fun v r => r.leaveHttps v) (initial .HTTPS) =
          past'.foldl (fun v r => r.leaveHttps v) (initial .HTTPS)) := by
  obtain ⟨before, hbefore, h⟩ := bind_eq_ok.1 h
  obtain ⟨before', hbefore', h'⟩ := bind_eq_ok.1 h'
  obtain ⟨hagent, hhttps⟩ := workerEnv_eq_ok hbefore
  obtain ⟨hagent', hhttps'⟩ := workerEnv_eq_ok hbefore'
  obtain ⟨halways, huser, hsecure⟩ := deepcgiHandler_eq_ok h
  obtain ⟨halways', huser', hsecure'⟩ := deepcgiHandler_eq_ok h'
  rw [← hagent, ← hagent', ← hhttps, ← hhttps']
  have hsame : ∀ name value, r.always config name = some value → env name = env' name := by
    intro name value hname
    rw [halways name value hname, halways' name value hname]
  have hline : requestLine env = requestLine env' := by
    simp only [requestLine, safeGetenv, hsame .REQUEST_METHOD _ rfl, hsame .REQUEST_URI _ rfl,
      hsame .SERVER_PROTOCOL _ rfl]
  have hseen : seen env = seen env' ↔
      env .HTTP_USER_AGENT = env' .HTTP_USER_AGENT ∧ env .HTTPS = env' .HTTPS := by
    rw [seen, seen, Seen.mk.injEq, hline, hsame .HTTP_HOST _ rfl]
    tauto
  have hagents : env .HTTP_USER_AGENT = env' .HTTP_USER_AGENT ↔
      r.userAgent ≠ none ∨ before .HTTP_USER_AGENT = before' .HTTP_USER_AGENT := by
    rw [huser, huser']
    rcases r.userAgent with _ | agent <;> simp
  have hhttps : env .HTTPS = env' .HTTPS ↔
      r.isHttps = true ∨ before .HTTPS = before' .HTTPS := by
    rw [hsecure, hsecure']
    rcases r.isHttps <;> simp
  rw [← hagents, ← hhttps, ← hseen]
  constructor
  · exact fun h => h.1
  · intro h
    exact ⟨h, fun recordings => replayserver_congr recordings (hsame .MAHIMAHI_CHDIR _ rfl)
      (hsame .MAHIMAHI_RECORD_PATH _ rfl) h⟩

/-- Two directories. -/
def directories : DeepcgiConfig := { workingDir := some (ascii "/"), recordingDir := some (ascii "r/") }

/-- A request for `http://a/`. -/
def getA (headersIn : List (Bytes × Bytes)) : RequestRec where
  unparsedUri := ascii "/"
  hostname := some (ascii "a")
  headersIn := headersIn

/-- A request that says what it is sees no trace of the one before it. -/
theorem seen_iff_userAgent :
    ∃ env env', replayEnv directories (fun _ => none) [getA [(ascii "user-agent", ascii "x")]]
        (getA [(ascii "User-Agent", ascii "y")]) = .ok (some env) ∧
      replayEnv directories (fun _ => none) [] (getA [(ascii "User-Agent", ascii "y")]) =
        .ok (some env') ∧ seen env = seen env' := by
  obtain ⟨env, h⟩ : ∃ env, replayEnv directories (fun _ => none)
      [getA [(ascii "user-agent", ascii "x")]] (getA [(ascii "User-Agent", ascii "y")]) =
        .ok (some env) := ⟨_, rfl⟩
  obtain ⟨env', h'⟩ : ∃ env', replayEnv directories (fun _ => none) []
      (getA [(ascii "User-Agent", ascii "y")]) = .ok (some env') := ⟨_, rfl⟩
  exact ⟨env, env', h, h', ((seen_iff h h').2 ⟨Or.inl (by decide), Or.inr (by decide)⟩).1⟩

/-- The record of a request for `http://a/` without a user agent. -/
def recordA : RequestResponse where
  scheme := .HTTP
  request := {
    firstLine := ascii "GET / HTTP/1.1"
    headers := [{ key := ascii "Host", value := ascii "a" }]
    state := .complete
    derived := {} }
  response := { state := .complete, derived := {} }

/-- **A request sees the user agent of the one before it,** and does not find its
record. -/
theorem stale_user_agent :
    ∃ env env', replayEnv directories (fun _ => none) [getA [(ascii "User-Agent", ascii "x")]]
        (getA []) = .ok (some env) ∧
      replayEnv directories (fun _ => none) [] (getA []) = .ok (some env') ∧
      (seen env).httpUserAgent = some (ascii "x") ∧ (seen env').httpUserAgent = none ∧
      replayserver (fun _ _ => .ok [.ok recordA]) env = .ok none ∧
      replayserver (fun _ _ => .ok [.ok recordA]) env' = .ok (some recordA) := by
  refine ⟨_, _, rfl, rfl, ?_, ?_, ?_, ?_⟩
  · decide +kernel
  · decide +kernel
  · rfl
  · rfl

end V2Proxy
