/-
# `split` and `MIMEType`

`src/http/tokenize.hh` and `src/http/mime_type.cc`.
-/

import V2Proxy.Util.Bytes

namespace V2Proxy

open Foundations

/-- The first loop of `split`: it pushes every position at which `separator`
occurs to `indices`.  Its state is `next_token` and `indices`. -/
def splitLoop (str separator : Bytes) : Loop Fault (ℕ × List ℕ) (List ℕ) where
  step s :=
    match findFrom separator str s.1 with
    | some nextToken => .ok (.inl (nextToken + 1, s.2 ++ [nextToken]))
    | none => .ok (.inr s.2)
  measure s := str.length + 1 - s.1
  decreases {s s'} h := by
    rcases hf : findFrom separator str s.1 with _ | i
    · simp [hf] at h
    · rw [hf] at h
      cases h
      rw [findFrom] at hf
      split_ifs at hf with hle
      obtain ⟨k, -, rfl⟩ := Option.map_eq_some_iff.1 hf
      simp only
      omega

/-- `split( str, separator )`.  The lengths of the inner tokens are differences
of `size_t`. -/
def split (str separator : Bytes) : Except Fault (List Bytes) := do
  let indices ← (splitLoop str separator).run (0, [])
  match indices, indices.getLast? with
  | first :: _, some last =>
      return str.take first ::
        (indices.zip indices.tail).map (fun i =>
          (str.drop (i.1 + separator.length)).take
            (sizeSub (sizeSub i.2 i.1) separator.length)) ++
        [str.drop (last + separator.length)]
  | _, _ => return [str]

/-- `MIMEType( content_type ).type()`. -/
def mimeType (contentType : Bytes) : Except Fault Bytes := do
  match ← split contentType (ascii ";") with
  | [] | [] :: _ => .error (.runtimeError (ascii "MIMEType: invalid MIME media-type string"))
  | type :: _ => return type

example : split (ascii "HTTP/1.1 200 OK") (ascii " ") =
    .ok [ascii "HTTP/1.1", ascii "200", ascii "OK"] := by
  decide +kernel

end V2Proxy
