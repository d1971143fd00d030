/-
# What the filter lets through, and what that asks for

A forwarded request asks for as many instances as the `MaxCount` parameter of its
form body says, or for one lambda (`asked`).  `limit_resource` reads and rewrites
another number: the one after the first `MaxCount=` of the whole text, headers
included, and it overwrites `sizeof( std::to_string( .. ) )` bytes, which is the
size of the string object and not the length of the number.  Where that first
`MaxCount=` is the form's own and what stands behind the overwritten bytes is
not another digit (`MaxCountInForm`), the forwarded request asks for no more
than it was granted (`asked_le_granted`), and so no history of requests asks for
more than `INVOKE_LIMIT` in all (`asked_le_limit`).  Elsewhere it can
(`asked_exceeds_limit`).
-/

import V2Proxy.Foundations.Fields
import V2Proxy.Http.RequestStream
import V2Proxy.Http.V2FilterClient

namespace V2Proxy

open Foundations

/-- The text after the first empty line. -/
def formBody (message : Bytes) : Bytes :=
  match find (CRLF ++ CRLF) message with
  | some i => message.drop (i + 4)
  | none => []

/-- The key of the parameter, with its `=`. -/
def maxCountKey : Bytes := ascii "MaxCount="

/-- The value of the `MaxCount` parameter of a form body. -/
def maxCount (body : Bytes) : Option Bytes :=
  ((body.splitOn 38).find? (maxCountKey.isPrefixOf ·)).map (·.drop 9)

/-- The number a text of decimal digits denotes; any other text asks for none. -/
def decimalValue (value : Bytes) : ℕ :=
  if value.all fun c => (digitValue 10 c).isSome then digitsValue 10 value else 0

/-- The invocations a forwarded request asks for. -/
def asked (message : Bytes) : ℕ :=
  if isEc2 message then ((maxCount (formBody message)).map decimalValue).getD 0
  else if isLambda message then 1
  else 0

/-- Requests handed to `v2filter_client` one after the other, each as one
buffer: the texts it forwards, and the list.  A request on which it throws is
not forwarded. -/
def filterAll (list : CloudResourceList) : List Bytes → List Bytes × CloudResourceList
  | [] => ([], list)
  | buffer :: buffers =>
      match v2filterClient buffer list with
      | .error _ => filterAll list buffers
      | .ok (message, list') =>
          let (messages, list'') := filterAll list' buffers
          (if message = BLOCKED then messages else message :: messages, list'')

/-- The first `MaxCount=` of the text is the form's `MaxCount` parameter, and the
text goes on without a digit behind the bytes that the rewriting overwrites. -/
def MaxCountInForm (message : Bytes) : Prop :=
  ∀ first ∈ find maxCountKey message,
    (∃ i ∈ find (CRLF ++ CRLF) message,
      first = i + 4 ∨ i + 4 < first ∧ message[first - 1]? = some 38) ∧
    ∀ c ∈ message[first + 9 + sizeofString]?, digitValue 10 c = none

instance : DecidablePred MaxCountInForm := fun message =>
  inferInstanceAs (Decidable (∀ first ∈ find maxCountKey message,
    (∃ i ∈ find (CRLF ++ CRLF) message,
      first = i + 4 ∨ i + 4 < first ∧ message[first - 1]? = some 38) ∧
    ∀ c ∈ message[first + 9 + sizeofString]?, digitValue 10 c = none))

theorem length_maxCountKey : maxCountKey.length = 9 := by decide

/-- A number and a text that does not go on with a digit: what it denotes up to
the end of the parameter is the number or nothing. -/
theorem decimalValue_takeWhile_le (n : ℕ) {rest : Bytes}
    (hrest : ∀ c, rest.head? = some c → digitValue 10 c = none) :
    decimalValue ((decimal n ++ rest).takeWhile (· ≠ 38)) ≤ n := by
  have hdigits : (decimal n ++ rest).takeWhile (· ≠ 38) = decimal n ++ rest.takeWhile (· ≠ 38) := by
    refine List.takeWhile_append_of_pos fun c hc => decide_eq_true ?_
    rintro rfl
    have := isSome_of_mem_decimal hc
    revert this
    decide
  rw [hdigits, decimalValue]
  split_ifs with hall
  · cases rest with
    | nil =>
        rw [List.takeWhile_nil, List.append_nil, digitsValue_decimal]
    | cons c rest =>
        by_cases hc : c = 38
        · rw [List.takeWhile_cons_of_neg (by simp [hc]), List.append_nil, digitsValue_decimal]
        · rw [List.takeWhile_cons_of_pos (by simp [hc]), List.all_append, List.all_cons,
            hrest c rfl] at hall
          simp at hall
  · exact Nat.zero_le n

/-- **The rewritten parameter asks for what was granted.** -/
theorem maxCount_writeCount_le {message : Bytes} {first : ℕ} (hform : MaxCountInForm message)
    (hfirst : find maxCountKey message = some first) (count : ℕ) :
    ((maxCount (formBody (writeCount message count))).map decimalValue).getD 0 ≤ count := by
  have hnew : writeCount message count = message.take first ++
      (maxCountKey ++ (decimal count ++ message.drop (first + 9 + sizeofString))) :=
    writeCount_of_find hfirst count
  obtain ⟨⟨i, hi, hstart⟩, hdigit⟩ := hform first hfirst
  have hlen := add_length_le_of_find hfirst
  rw [length_maxCountKey] at hlen
  have hpat : (CRLF ++ CRLF).length = 4 := rfl
  -- the text up to and with the key, before and after the rewriting
  set rest := message.drop (first + 9 + sizeofString) with hrest
  have hblank : find (CRLF ++ CRLF) (writeCount message count) = some i := by
    rw [hnew]
    exact find_append_of_some (find_take_of_some hi (by rw [hpat]; omega)) _
  -- the body of the rewritten text: `u`, the key, the number, the rest
  set u := (message.take first).drop (i + 4) with hu
  have hbody : formBody (writeCount message count) =
      u ++ (maxCountKey ++ (decimal count ++ rest)) := by
    rw [formBody, hblank]
    change (writeCount message count).drop (i + 4) = _
    rw [hnew, List.drop_append_of_le_length (by
      rw [List.length_take]; omega)]
  have hno : ¬ maxCountKey <:+: u := fun h =>
    not_infix_take_of_find (by decide) hfirst (h.trans (List.drop_suffix _ _).isInfix)
  have hdelim : u = [] ∨ ∃ w, u = w ++ [38] := by
    rcases hstart with rfl | ⟨hlt, hamp⟩
    · exact Or.inl (by rw [hu, List.drop_eq_nil_of_le (by rw [List.length_take]; omega)])
    · obtain ⟨k, rfl⟩ : ∃ k, first = k + 1 := ⟨first - 1, by omega⟩
      refine Or.inr ⟨(message.take k).drop (i + 4), ?_⟩
      rw [hu, List.take_add_one, show message[k]? = some 38 from hamp, Option.toList_some,
        List.drop_append_of_le_length (by rw [List.length_take]; omega)]
  have hvalue : (maxCountKey ++ (decimal count ++ rest)).takeWhile (· ≠ 38) =
      maxCountKey ++ (decimal count ++ rest).takeWhile (· ≠ 38) :=
    List.takeWhile_append_of_pos (by decide +kernel)
  have hrest : ∀ c, rest.head? = some c → digitValue 10 c = none := by
    intro c hc
    rw [hrest, List.head?_drop] at hc
    exact hdigit c hc
  rw [hbody, maxCount, find?_splitOn_append hdelim hno (by decide) (List.prefix_append _ _),
    hvalue, Option.map_some, Option.map_some, Option.getD_some,
    ← length_maxCountKey, List.drop_left]
  exact decimalValue_takeWhile_le count hrest

/-- What is true of a round of the filter once its text is paid for: the text is
refused, or it asks for no more than the invoked list has gained over `list`. -/
structure Filtering.Paid (list : CloudResourceList) (f : Filtering) : Prop where
  grows : list.invoked.length ≤ f.list.invoked.length
  limit : list.invoked.length ≤ INVOKE_LIMIT → f.list.invoked.length ≤ INVOKE_LIMIT
  paid : f.clientMessage = BLOCKED ∨
    asked f.clientMessage + list.invoked.length ≤ f.list.invoked.length

theorem Filtering.limitOther_limit {f : Filtering} (resourceType : Bytes)
    (h : f.list.invoked.length ≤ INVOKE_LIMIT) :
    (f.limitOther resourceType).deliver.list.invoked.length ≤ INVOKE_LIMIT := by
  obtain ⟨⟨hroom, -, hlen⟩ | ⟨-, -, hinvoked⟩, -⟩ := f.limitOther_deliver resourceType
  · rw [CloudResourceList.room] at hroom
    omega
  · rw [hinvoked]
    exact h

/-- A further invocation does not touch what is paid for. -/
theorem Filtering.Paid.limitOther {list : CloudResourceList} {f : Filtering} (h : f.Paid list)
    (resourceType : Bytes) : (f.limitOther resourceType).deliver.Paid list := by
  have hlimit := fun hlist => f.limitOther_limit resourceType (h.limit hlist)
  have hgrows := h.grows
  obtain ⟨⟨-, hsame, hlen⟩ | ⟨-, hblocked, hinvoked⟩, -⟩ := f.limitOther_deliver resourceType
  · refine ⟨by omega, hlimit, ?_⟩
    rw [hsame, hlen]
    rcases h.paid with hpaid | hpaid
    · exact Or.inl hpaid
    · exact Or.inr (by omega)
  · exact ⟨by rw [hinvoked]; exact hgrows, hlimit, Or.inl hblocked⟩

/-- **An EC2 request whose `MaxCount` is read where it stands is paid for.** -/
theorem Filtering.paid_grantEc2 {buffer : Bytes} {count : ℤ} (hform : MaxCountInForm buffer)
    (hcount : countRequested buffer = .ok count) (list : CloudResourceList) :
    (Filtering.grantEc2 { message := buffer, clientMessage := buffer, list := list } (ascii "ec2")
      count).deliver.Paid list := by
  have hlength := list.length_invokeMany (ascii "ec2") count
  have hroom : list.grant count ≤ INVOKE_LIMIT - list.invoked.length := min_le_right _ _
  obtain ⟨first, hfirst⟩ := exists_find_of_countRequested hcount
  by_cases hzero : list.grant count = 0
  · rw [Filtering.deliver_refused hzero]
    exact ⟨by dsimp only; omega, fun hle => by dsimp only; omega, Or.inl rfl⟩
  · rw [Filtering.deliver_granted hzero]
    have hasked : asked (writeCount buffer (list.grant count)) ≤ list.grant count := by
      rw [asked]
      split_ifs
      · exact maxCount_writeCount_le hform hfirst _
      · omega
      · omega
    exact ⟨by dsimp only; omega, fun hle => by dsimp only; omega, Or.inr (by dsimp only; omega)⟩

/-- **A forwarded request asks for no more than it was granted.** -/
theorem asked_le_granted {buffer message : Bytes} {list list' : CloudResourceList}
    (hform : isEc2 buffer = true → MaxCountInForm buffer)
    (h : v2filterClient buffer list = .ok (message, list')) :
    list.invoked.length ≤ list'.invoked.length ∧
      (list.invoked.length ≤ INVOKE_LIMIT → list'.invoked.length ≤ INVOKE_LIMIT) ∧
      (message = BLOCKED ∨ asked message + list.invoked.length ≤ list'.invoked.length) := by
  rw [v2filterClient_rounds] at h
  obtain ⟨f, hf, h⟩ := bind_eq_ok.1 h
  have hpair := Except.ok.inj h
  rw [Filtering.lastRound] at hpair
  by_cases hec2 : isEc2 buffer = true
  · rw [if_pos hec2] at hf
    obtain ⟨count, hcount, hf⟩ := bind_eq_ok.1 hf
    obtain rfl := Except.ok.inj hf
    have hpaid := Filtering.paid_grantEc2 (hform hec2) hcount list
    split_ifs at hpair
    · obtain ⟨rfl, rfl⟩ := Prod.mk.inj hpair
      have hlast := hpaid.limitOther (ascii "lambda")
      exact ⟨hlast.grows, hlast.limit, hlast.paid⟩
    · obtain ⟨rfl, rfl⟩ := Prod.mk.inj hpair
      exact ⟨hpaid.grows, hpaid.limit, hpaid.paid⟩
  · rw [if_neg hec2] at hf
    obtain rfl := Except.ok.inj hf
    split_ifs at hpair with hlambda
    · obtain ⟨rfl, rfl⟩ := Prod.mk.inj hpair
      have hone : asked buffer = 1 := by rw [asked, if_neg hec2, if_pos hlambda]
      have hlim := Filtering.limitOther_limit (ascii "lambda")
        (f := { message := buffer, clientMessage := buffer, list := list })
      obtain ⟨⟨-, hsame, hlen⟩ | ⟨-, hblocked, hinvoked⟩, -⟩ := Filtering.limitOther_deliver
        { message := buffer, clientMessage := buffer, list := list } (ascii "lambda")
      · refine ⟨by rw [hlen]; exact Nat.le_succ _, hlim, Or.inr ?_⟩
        rw [hsame, hone, hlen]
        exact (Nat.add_comm _ _).le
      · exact ⟨by rw [hinvoked], hlim, Or.inl hblocked⟩
    · obtain ⟨rfl, rfl⟩ := Prod.mk.inj hpair
      have hzero : asked buffer = 0 := by rw [asked, if_neg hec2, if_neg hlambda]
      refine ⟨le_rfl, id, Or.inr ?_⟩
      rw [hzero, Nat.zero_add]

/-- Along any history, the requests forwarded ask for no more than the invoked
list has gained. -/
theorem filterAll_paid {buffers : List Bytes}
    (hform : ∀ buffer ∈ buffers, isEc2 buffer = true → MaxCountInForm buffer)
    (list : CloudResourceList) :
    ((filterAll list buffers).1.map asked).sum + list.invoked.length ≤
        (filterAll list buffers).2.invoked.length ∧
      (list.invoked.length ≤ INVOKE_LIMIT →
        (filterAll list buffers).2.invoked.length ≤ INVOKE_LIMIT) := by
  induction buffers generalizing list with
  | nil => exact ⟨by simp [filterAll], id⟩
  | cons buffer buffers ih =>
      have ih := ih fun b hb => hform b (List.mem_cons_of_mem buffer hb)
      rw [filterAll]
      split
      · exact ih list
      · rename_i message list' hmessage
        obtain ⟨hgrows, hlimit, hpaid⟩ := asked_le_granted (hform buffer (by simp)) hmessage
        obtain ⟨hsum, hrest⟩ := ih list'
        refine ⟨?_, fun h => hrest (hlimit h)⟩
        dsimp only
        split_ifs with hblocked
        · omega
        · have := hpaid.resolve_left hblocked
          rw [List.map_cons, List.sum_cons]
          omega

/-- **No history asks for more than the limit,** as long as every request that
invokes instances has its `MaxCount` read and rewritten where it stands. -/
theorem asked_le_limit {buffers : List Bytes}
    (hform : ∀ buffer ∈ buffers, isEc2 buffer = true → MaxCountInForm buffer) :
    ((filterAll {} buffers).1.map asked).sum ≤ INVOKE_LIMIT := by
  obtain ⟨hsum, hlimit⟩ := filterAll_paid hform {}
  have := hlimit (Nat.zero_le _)
  simp only [List.length_nil] at hsum
  omega

/-- A request for one instance, and a request for three that is cut to one. -/
theorem asked_le_limit_two :
    ((filterAll {} [
      ascii "POST / HTTP/1.1\r\nHost: ec2\r\n" ++ (ascii "Content-Length: 30\r\n\r\n" ++
        ascii "MaxCount=1&Action=RunInstances"),
      ascii "POST / HTTP/1.1\r\nHost: ec2\r\n" ++ (ascii "Content-Length: 30\r\n\r\n" ++
        ascii "Action=RunInstances&MaxCount=3")]).1.map asked).sum ≤ INVOKE_LIMIT :=
  asked_le_limit (by decide +kernel)

/-- A request for one instance whose client token ends in digits. -/
def tokenRequest : Bytes :=
  ascii "POST / HTTP/1.1\r\nHost: ec2\r\n" ++ (ascii "Content-Length: 65\r\n\r\n" ++
    (ascii "Action=RunInstances&MaxCount=1" ++ (ascii "&ClientToken=" ++
      ascii "0123456789abcdefgh9999")))

/-- **The rewriting can raise the count.**  It overwrites 32 bytes for a number of
one digit, and the digits behind them become part of the number: the request for
one instance is forwarded as a request for 19999. -/
theorem asked_exceeds_limit :
    ¬ ∀ buffers : List Bytes, (∀ buffer ∈ buffers, ∃ m, CompleteRequest buffer m) →
      ((filterAll {} buffers).1.map asked).sum ≤ INVOKE_LIMIT := by
  intro h
  have hlen : tokenRequest.length ≤ bufferSize := by decide +kernel
  have hcomplete := exists_completeRequest hlen (by decide +kernel)
  have hsum := h [tokenRequest] fun buffer hb => List.mem_singleton.1 hb ▸ hcomplete
  revert hsum
  decide +kernel

end V2Proxy
