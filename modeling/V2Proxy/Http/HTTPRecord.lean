/-
# The protobufs of a recording

`src/protobufs/http_record.proto`, and the conversions of `src/http/http_header.cc` and
`src/http/http_message.cc`.  Every field is optional, and one that is not set reads as its
default: the empty string, zero and `HTTP`.

What the generated code writes to a file is the parameter `RecordFormat`: all that is used of it is
that what is written can be read.  The format of the library is `wireFormat`.
-/

import V2Proxy.Foundations.Wire
import V2Proxy.Http.HTTPMessage

namespace V2Proxy

open Foundations

/-- `RequestResponse_Scheme`. -/
inductive Scheme
  | HTTP
  | HTTPS
deriving DecidableEq

namespace MahimahiProtobufs

/-- `message HTTPHeader`. -/
structure HTTPHeader where
  key : Option Bytes := none
  value : Option Bytes := none
deriving DecidableEq

/-- `message HTTPMessage`. -/
structure HTTPMessage where
  firstLine : Option Bytes := none
  header : List HTTPHeader := []
  body : Option Bytes := none
deriving DecidableEq

/-- `message RequestResponse`. -/
structure RequestResponse where
  ip : Option Bytes := none
  port : Option UInt32 := none
  scheme : Option Scheme := none
  request : Option HTTPMessage := none
  response : Option HTTPMessage := none
deriving DecidableEq

end MahimahiProtobufs

/-! ### Conversions -/

/-- `HTTPHeader::toprotobuf`. -/
def HTTPHeader.toprotobuf (h : HTTPHeader) : MahimahiProtobufs.HTTPHeader where
  key := some h.key
  value := some h.value

/-- `HTTPHeader::HTTPHeader( proto )`. -/
def HTTPHeader.ofProtobuf (proto : MahimahiProtobufs.HTTPHeader) : HTTPHeader where
  key := proto.key.getD []
  value := proto.value.getD []

namespace HTTPMessage

variable {X : Type}

/-- `HTTPMessage::toprotobuf`. -/
def toprotobuf (m : HTTPMessage X) : Except Fault MahimahiProtobufs.HTTPMessage := do
  assert (m.state = .complete) "state_ == COMPLETE"
  return {
    firstLine := some m.firstLine
    header := m.headers.map HTTPHeader.toprotobuf
    body := some m.body }

/-- `HTTPMessage::HTTPMessage( proto )`. -/
def ofProtobuf [MessageType X] (proto : MahimahiProtobufs.HTTPMessage) : HTTPMessage X where
  firstLine := proto.firstLine.getD []
  headers := proto.header.map HTTPHeader.ofProtobuf
  body := proto.body.getD []
  state := .complete
  derived := MessageType.fresh

variable {m : HTTPMessage X} {proto : MahimahiProtobufs.HTTPMessage}

/-- A complete message has a protocol buffer. -/
theorem toprotobuf_of_complete (h : m.state = .complete) :
    m.toprotobuf = .ok {
      firstLine := some m.firstLine
      header := m.headers.map HTTPHeader.toprotobuf
      body := some m.body } := by
  rw [toprotobuf, assert_of h]
  rfl

end HTTPMessage

/-! ### Files -/

/-- `SerializeToFileDescriptor` and `ParseFromFileDescriptor`. -/
structure RecordFormat where
  serialize : MahimahiProtobufs.RequestResponse → Option Bytes
  parse : Bytes → Option MahimahiProtobufs.RequestResponse
  parse_serialize : ∀ {record contents}, serialize record = some contents →
    parse contents = some record

namespace MahimahiProtobufs

open Wire

/-- The numbers of the fields are those of `http_record.proto`. -/
def HTTPHeader.fields (h : HTTPHeader) : List Field :=
  ofStrings 1 h.key.toList ++ ofStrings 2 h.value.toList

/-- Of a field that is there more than once, the last one counts. -/
def HTTPHeader.ofFields (fields : List Field) : HTTPHeader where
  key := (strings 1 fields).getLast?
  value := (strings 2 fields).getLast?

/-- The fields of a message. -/
def HTTPMessage.fields (m : HTTPMessage) : List Field :=
  ofStrings 1 m.firstLine.toList ++ ofStrings 2 (m.header.map fun h => encode h.fields) ++
    ofStrings 3 m.body.toList

/-- A message, from its fields. -/
def HTTPMessage.ofFields (fields : List Field) : Option HTTPMessage := do
  let header ← (strings 2 fields).mapM fun b => (decode b).map HTTPHeader.ofFields
  return {
    firstLine := (strings 1 fields).getLast?
    header := header
    body := (strings 3 fields).getLast? }

/-- The numbers of the schemes are those of `http_record.proto`. -/
def Scheme.number : Scheme → ℕ
  | .HTTP => 1
  | .HTTPS => 2

/-- Another number is not a scheme. -/
def Scheme.ofNumber : ℕ → Option Scheme
  | 1 => some .HTTP
  | 2 => some .HTTPS
  | _ => none

/-- The fields of a record. -/
def RequestResponse.fields (r : RequestResponse) : List Field :=
  ofStrings 1 r.ip.toList ++ ofVarints 2 (r.port.toList.map UInt32.toNat) ++
    ofVarints 3 (r.scheme.toList.map Scheme.number) ++
    ofStrings 4 (r.request.toList.map fun m => encode m.fields) ++
    ofStrings 5 (r.response.toList.map fun m => encode m.fields)

/-- The parts of a message that is there more than once are merged. -/
def HTTPMessage.ofParts : List Bytes → Option (Option HTTPMessage)
  | [] => some none
  | parts => ((decode parts.flatten).bind HTTPMessage.ofFields).map some

/-- A record, from its fields. -/
def RequestResponse.ofFields (fields : List Field) : Option RequestResponse := do
  let request ← HTTPMessage.ofParts (strings 4 fields)
  let response ← HTTPMessage.ofParts (strings 5 fields)
  return {
    ip := (strings 1 fields).getLast?
    port := (varints 2 fields).getLast?.map UInt32.ofNat
    scheme := ((varints 3 fields).filterMap Scheme.ofNumber).getLast?
    request := request
    response := response }

/-- An optional field is there at most once. -/
theorem getLast?_toList {α : Type} (o : Option α) : o.toList.getLast? = o := by cases o <;> rfl

/-- **A header is read back.** -/
theorem HTTPHeader.decode_fields {h : HTTPHeader} (hlength : (encode h.fields).length < 2 ^ 64) :
    (decode (encode h.fields)).map ofFields = some h := by
  have hwritable : Writable h.fields :=
    writable_append.2 ⟨writable_ofStrings (by decide) _, writable_ofStrings (by decide) _⟩
  rw [hwritable.decode_encode hlength, Option.map_some]
  simp [ofFields, fields, getLast?_toList]

/-- The headers are read. -/
theorem HTTPHeader.mapM_decode_fields {header : List HTTPHeader}
    (hlength : ∀ h ∈ header, (encode h.fields).length < 2 ^ 64) :
    (header.map fun h => encode h.fields).mapM (fun b => (decode b).map ofFields) = some header := by
  induction header with
  | nil => rfl
  | cons h header ih =>
      rw [List.map_cons, List.mapM_cons, decode_fields (hlength h List.mem_cons_self),
        ih fun h' hh' => hlength h' (List.mem_cons_of_mem h hh')]
      rfl

/-- **A message is read back.** -/
theorem HTTPMessage.decode_fields {m : HTTPMessage} (hlength : (encode m.fields).length < 2 ^ 64) :
    (decode (encode m.fields)).bind ofFields = some m := by
  have hwritable : Writable m.fields := by
    rw [fields, writable_append, writable_append]
    exact ⟨⟨writable_ofStrings (by decide) _, writable_ofStrings (by decide) _⟩,
      writable_ofStrings (by decide) _⟩
  have hheader := HTTPHeader.mapM_decode_fields fun h (hh : h ∈ m.header) =>
    (length_le_of_mem (List.mem_append_left _ (List.mem_append_right _ (mem_ofStrings
      (List.mem_map_of_mem hh))) : (2, .bytes (encode h.fields)) ∈ m.fields)).trans_lt hlength
  have hstrings : strings 2 m.fields = m.header.map fun h => encode h.fields := by simp [fields]
  rw [hwritable.decode_encode hlength, Option.bind_some, ofFields, hstrings, hheader]
  simp [fields, getLast?_toList]

/-- A message that may not be there is read. -/
theorem HTTPMessage.ofParts_fields {o : Option HTTPMessage}
    (hlength : ∀ m ∈ o, (encode m.fields).length < 2 ^ 64) :
    ofParts (o.toList.map fun m => encode m.fields) = some o := by
  cases o with
  | none => rfl
  | some m =>
      change ((decode [encode m.fields].flatten).bind ofFields).map some = _
      rw [List.flatten_singleton, decode_fields (hlength m rfl), Option.map_some]

/-- A scheme that may not be there is read. -/
theorem Scheme.filterMap_number (o : Option Scheme) :
    ((o.toList.map number).filterMap ofNumber).getLast? = o := by
  rcases o with _ | _ | _ <;> rfl

/-- **A record is read back.** -/
theorem RequestResponse.decode_fields {r : RequestResponse}
    (hlength : (encode r.fields).length < 2 ^ 64) :
    (decode (encode r.fields)).bind ofFields = some r := by
  have hwritable : Writable r.fields := by
    simp only [fields, writable_append]
    refine ⟨⟨⟨⟨writable_ofStrings (by decide) _, writable_ofVarints (by decide) ?_⟩,
      writable_ofVarints (by decide) ?_⟩, writable_ofStrings (by decide) _⟩,
      writable_ofStrings (by decide) _⟩
    · intro v hv
      obtain ⟨p, -, rfl⟩ := List.mem_map.1 hv
      exact p.toNat_lt.trans (by decide)
    · intro v hv
      obtain ⟨s, -, rfl⟩ := List.mem_map.1 hv
      cases s <;> decide
  have hle : ∀ number b, (number, .bytes b) ∈ r.fields → b.length < 2 ^ 64 :=
    fun _ _ h => (length_le_of_mem h).trans_lt hlength
  have hrequest : HTTPMessage.ofParts (strings 4 r.fields) = some r.request := by
    rw [show strings 4 r.fields = r.request.toList.map fun m => encode m.fields by simp [fields]]
    refine HTTPMessage.ofParts_fields fun m hm => hle 4 _ ?_
    exact List.mem_append_left _ (List.mem_append_right _ (mem_ofStrings
      (List.mem_map_of_mem (Option.mem_toList.2 hm))))
  have hresponse : HTTPMessage.ofParts (strings 5 r.fields) = some r.response := by
    rw [show strings 5 r.fields = r.response.toList.map fun m => encode m.fields by simp [fields]]
    refine HTTPMessage.ofParts_fields fun m hm => hle 5 _ ?_
    exact List.mem_append_right _ (mem_ofStrings (List.mem_map_of_mem (Option.mem_toList.2 hm)))
  have hscheme : ((varints 3 r.fields).filterMap Scheme.ofNumber).getLast? = r.scheme := by
    rw [show varints 3 r.fields = r.scheme.toList.map Scheme.number by simp [fields],
      Scheme.filterMap_number]
  have hport : (varints 2 r.fields).getLast?.map UInt32.ofNat = r.port := by
    rw [show varints 2 r.fields = r.port.toList.map UInt32.toNat by simp [fields], List.getLast?_map,
      getLast?_toList, Option.map_map]
    exact (Option.map_congr fun p _ => UInt32.ofNat_toNat).trans (Option.map_id_apply)
  rw [hwritable.decode_encode hlength, Option.bind_some, ofFields, hrequest, hresponse, hscheme, hport]
  simp [fields, getLast?_toList]

/-- The format of the library: nothing that has 2^31 bytes or more is written. -/
def wireFormat : RecordFormat where
  serialize r := if (encode r.fields).length < 2 ^ 31 then some (encode r.fields) else none
  parse contents := (decode contents).bind RequestResponse.ofFields
  parse_serialize {r contents} h := by
    split_ifs at h with hlength
    obtain rfl := Option.some.inj h
    exact RequestResponse.decode_fields (hlength.trans (by decide))

end MahimahiProtobufs

end V2Proxy
