/-
# `mod_deepcgi`

`src/frontend/mod_deepcgi.c`: the handler of the Apache workers that replay a
recording.  It puts what the request says into the environment of the worker and runs
`mm-replayserver`, which inherits that environment.  The worker handles one request
after the other (`mpm_prefork`), and its environment stays: a variable that the handler
does not set keeps the value of an earlier request.

How the output of `mm-replayserver` is passed on is not modelled.
-/

import V2Proxy.Http.HTTPMessage

namespace V2Proxy

open Foundations

/-- The environment variables that the handler sets or `mm-replayserver` reads. -/
inductive Variable
  | MAHIMAHI_CHDIR
  | MAHIMAHI_RECORD_PATH
  | REQUEST_METHOD
  | REQUEST_URI
  | SERVER_PROTOCOL
  | HTTP_HOST
  | HTTP_USER_AGENT
  | HTTPS
deriving DecidableEq

/-- The name of a variable. -/
def Variable.name : Variable → Bytes
  | .MAHIMAHI_CHDIR => ascii "MAHIMAHI_CHDIR"
  | .MAHIMAHI_RECORD_PATH => ascii "MAHIMAHI_RECORD_PATH"
  | .REQUEST_METHOD => ascii "REQUEST_METHOD"
  | .REQUEST_URI => ascii "REQUEST_URI"
  | .SERVER_PROTOCOL => ascii "SERVER_PROTOCOL"
  | .HTTP_HOST => ascii "HTTP_HOST"
  | .HTTP_USER_AGENT => ascii "HTTP_USER_AGENT"
  | .HTTPS => ascii "HTTPS"

/-- An environment: the value of each variable, or `NULL`. -/
abbrev Env : Type := Variable → Option Bytes

/-- The environment with a variable set. -/
def Env.set (env : Env) (name : Variable) (value : Bytes) : Env := fun other =>
  if other = name then some value else env other

/-- `setenv( name, value, TRUE )`, which must not be called with `NULL`. -/
def setenv (env : Env) (name : Variable) : Option Bytes → Except Fault Env
  | some value => .ok (env.set name value)
  | none => .error (.undefinedBehaviour (ascii "setenv"))

/-- `deepcgi_config`: two strings of the configuration, or `NULL`. -/
structure DeepcgiConfig where
  workingDir : Option Bytes
  recordingDir : Option Bytes

/-- What the handler reads of a `request_rec`. -/
structure RequestRec where
  handler : Option Bytes := some (ascii "deepcgi-handler")
  method : Bytes := ascii "GET"
  unparsedUri : Bytes
  protocol : Bytes := ascii "HTTP/1.1"
  /-- `NULL` in a request without a host -/
  hostname : Option Bytes
  headersIn : List (Bytes × Bytes) := []
  /-- `ssl_is_https( connection )`, or `none` if `mod_ssl` is not there -/
  sslIsHttps : Option Bool := none

/-- `apr_table_get`: the first entry with the key, in any case. -/
def aprTableGet (table : List (Bytes × Bytes)) (key : Bytes) : Option Bytes :=
  (table.find? fun entry => entry.1.map httpToLower = key.map httpToLower).map Prod.snd

namespace RequestRec

/-- `user_agent`. -/
def userAgent (r : RequestRec) : Option Bytes := aprTableGet r.headersIn (ascii "User-Agent")

/-- The connection is HTTPS. -/
def isHttps (r : RequestRec) : Bool := r.sslIsHttps = some true

/-- The request is not declined. -/
def handled (r : RequestRec) : Bool := r.handler = some (ascii "deepcgi-handler")

end RequestRec

/-- `deepcgi_handler`: the environment in which `mm-replayserver` runs, or `none` for
`DECLINED`. -/
def deepcgiHandler (config : DeepcgiConfig) (env : Env) (r : RequestRec) :
    Except Fault (Option Env) :=
  if r.handled then do
    let env ← setenv env .MAHIMAHI_CHDIR config.workingDir
    let env ← setenv env .MAHIMAHI_RECORD_PATH config.recordingDir
    let env ← setenv env .REQUEST_METHOD (some r.method)
    let env ← setenv env .REQUEST_URI (some r.unparsedUri)
    let env ← setenv env .SERVER_PROTOCOL (some r.protocol)
    let env ← setenv env .HTTP_HOST r.hostname
    let env ← (if r.userAgent ≠ none then setenv env .HTTP_USER_AGENT r.userAgent else .ok env :
      Except Fault Env)
    let env ← (if r.isHttps then setenv env .HTTPS (some (ascii "1")) else .ok env :
      Except Fault Env)
    return some env
  else return none

/-- The environment of a worker once it has handled the requests. -/
def workerEnv (config : DeepcgiConfig) (initial : Env) (past : List RequestRec) :
    Except Fault Env :=
  past.foldlM (fun env r => do return (← deepcgiHandler config env r).getD env) initial

/-- The environment in which `mm-replayserver` runs for a request after others. -/
def replayEnv (config : DeepcgiConfig) (initial : Env) (past : List RequestRec) (r : RequestRec) :
    Except Fault (Option Env) := do
  deepcgiHandler config (← workerEnv config initial past) r

/-! ### What the handler leaves in the environment -/

/-- `setenv` sets one variable. -/
theorem setenv_eq_ok {env env' : Env} {name : Variable} {value : Option Bytes}
    (h : setenv env name value = .ok env') (other : Variable) :
    env' other = if other = name then value else env other := by
  rcases value with _ | v
  · cases h
  · obtain rfl := Except.ok.inj h
    rfl

/-- The variables that every request sets, and what it sets them to. -/
def RequestRec.always (r : RequestRec) (config : DeepcgiConfig) : Variable → Option (Option Bytes)
  | .MAHIMAHI_CHDIR => some config.workingDir
  | .MAHIMAHI_RECORD_PATH => some config.recordingDir
  | .REQUEST_METHOD => some (some r.method)
  | .REQUEST_URI => some (some r.unparsedUri)
  | .SERVER_PROTOCOL => some (some r.protocol)
  | .HTTP_HOST => some r.hostname
  | .HTTP_USER_AGENT => none
  | .HTTPS => none

/-- **What the environment holds after a request:** six variables are the request's; the
user agent is if it has one, and `HTTPS` if it is; else they stay. -/
theorem deepcgiHandler_eq_ok {config : DeepcgiConfig} {env env' : Env} {r : RequestRec}
    (h : deepcgiHandler config env r = .ok (some env')) :
    (∀ name value, r.always config name = some value → env' name = value) ∧
      env' .HTTP_USER_AGENT = r.userAgent.or (env .HTTP_USER_AGENT) ∧
      env' .HTTPS = if r.isHttps then some (ascii "1") else env .HTTPS := by
  rw [deepcgiHandler] at h
  by_cases hhandled : r.handled = true
  · rw [if_pos hhandled] at h
    obtain ⟨e₁, hchdir, h⟩ := bind_eq_ok.1 h
    obtain ⟨e₂, hrecord, h⟩ := bind_eq_ok.1 h
    obtain ⟨e₃, hmethod, h⟩ := bind_eq_ok.1 h
    obtain ⟨e₄, huri, h⟩ := bind_eq_ok.1 h
    obtain ⟨e₅, hprotocol, h⟩ := bind_eq_ok.1 h
    obtain ⟨e₆, hhost, h⟩ := bind_eq_ok.1 h
    obtain ⟨e₇, hagent, h⟩ := bind_eq_ok.1 h
    obtain ⟨e₈, hhttps, h⟩ := bind_eq_ok.1 h
    obtain rfl : e₈ = env' := Option.some.inj (Except.ok.inj h)
    have hsix := fun other => setenv_eq_ok hhost other
    simp only [setenv_eq_ok hprotocol, setenv_eq_ok huri, setenv_eq_ok hmethod,
      setenv_eq_ok hrecord, setenv_eq_ok hchdir] at hsix
    -- the two variables that are set on some paths only
    have hagent' : ∀ other, e₇ other =
        if other = .HTTP_USER_AGENT then r.userAgent.or (e₆ other) else e₆ other := by
      intro other
      rcases huser : r.userAgent with _ | agent
      · rw [huser] at hagent
        obtain rfl := Except.ok.inj hagent
        split_ifs <;> rfl
      · rw [huser, if_pos (Option.some_ne_none agent)] at hagent
        exact setenv_eq_ok hagent other
    have hhttps' : ∀ other, e₈ other =
        if other = .HTTPS then if r.isHttps then some (ascii "1") else e₇ other else e₇ other := by
      intro other
      by_cases hsecure : r.isHttps = true
      · rw [if_pos hsecure] at hhttps ⊢
        exact setenv_eq_ok hhttps other
      · rw [if_neg hsecure] at hhttps ⊢
        obtain rfl := Except.ok.inj hhttps
        split_ifs <;> rfl
    refine ⟨fun name value halways => ?_, ?_, ?_⟩
    · rw [hhttps', hagent', hsix]
      cases name with
      | HTTP_USER_AGENT => cases halways
      | HTTPS => cases halways
      | _ => exact Option.some.inj halways
    · rw [hhttps', hagent', hsix]
      rfl
    · rw [hhttps', hagent', hsix]
      rfl
  · rw [if_neg hhandled] at h
    cases h

/-- What a request leaves in `HTTP_USER_AGENT`. -/
def RequestRec.leaveAgent (r : RequestRec) (agent : Option Bytes) : Option Bytes :=
  if r.handled then r.userAgent.or agent else agent

/-- What a request leaves in `HTTPS`. -/
def RequestRec.leaveHttps (r : RequestRec) (https : Option Bytes) : Option Bytes :=
  if r.handled && r.isHttps then some (ascii "1") else https

/-- **What the requests of a worker leave in its environment:** the last user agent that
was sent, and whether there was an HTTPS request. -/
theorem workerEnv_eq_ok {config : DeepcgiConfig} {initial env : Env} {past : List RequestRec}
    (h : workerEnv config initial past = .ok env) :
    env .HTTP_USER_AGENT = past.foldl (fun v r => r.leaveAgent v) (initial .HTTP_USER_AGENT) ∧
      env .HTTPS = past.foldl (fun v r => r.leaveHttps v) (initial .HTTPS) := by
  induction past generalizing initial with
  | nil =>
      cases h
      exact ⟨rfl, rfl⟩
  | cons r past ih =>
      rw [workerEnv, List.foldlM_cons] at h
      obtain ⟨next, hnext, h⟩ := bind_eq_ok.1 h
      obtain ⟨seen, hseen, hnext⟩ := bind_eq_ok.1 hnext
      cases hnext
      obtain ⟨hagent, hhttps⟩ := ih h
      rw [List.foldl_cons, List.foldl_cons, hagent, hhttps, RequestRec.leaveAgent,
        RequestRec.leaveHttps]
      by_cases hhandled : r.handled = true
      · rcases seen with _ | next
        · rw [deepcgiHandler, if_pos hhandled] at hseen
          iterate 8 obtain ⟨_, -, hseen⟩ := bind_eq_ok.1 hseen
          cases hseen
        · obtain ⟨-, hagent', hhttps'⟩ := deepcgiHandler_eq_ok hseen
          rw [Option.getD_some, hagent', hhttps', if_pos hhandled, hhandled, Bool.true_and]
          exact ⟨rfl, rfl⟩
      · have hdeclined : deepcgiHandler config initial r = .ok none := by
          rw [deepcgiHandler, if_neg hhandled]
          rfl
        rw [hdeclined] at hseen
        cases hseen
        rw [Option.getD_none, if_neg hhandled, Bool.eq_false_iff.2 hhandled, Bool.false_and]
        exact ⟨rfl, rfl⟩

end V2Proxy
