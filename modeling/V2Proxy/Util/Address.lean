/-
# `Address`

`src/util/address.cc`, for IPv4: a `sockaddr_in` has a port and four octets, and everything
that compares or prints an `Address` is a function of these.  `getaddrinfo`, asked for a
numeric host, knows more forms of an address than the one that `getnameinfo` prints; what
is used of it is that it reads what is printed (`NumericHost`).

A `set< Address >` is in the order of `operator<`, which compares the bytes: those of the
port first, and both as they are sent (`SockaddrIn.key`).
-/

import V2Proxy.Util.Ezio
import Mathlib.Data.List.Nodup
import Mathlib.Order.Lattice

namespace V2Proxy

/-- An `in_addr`, octet by octet. -/
structure InAddr where
  a : UInt8
  b : UInt8
  c : UInt8
  d : UInt8
deriving DecidableEq

namespace InAddr

/-- The four numbers of an address. -/
def octets (i : InAddr) : List UInt8 := [i.a, i.b, i.c, i.d]

/-- The octets of an `s_addr`, the first one in its low byte. -/
def ofSAddr (n : UInt32) : InAddr :=
  ⟨.ofNat n.toNat, .ofNat (n.toNat / 2 ^ 8), .ofNat (n.toNat / 2 ^ 16), .ofNat (n.toNat / 2 ^ 24)⟩

/-- What `getnameinfo` prints. -/
def str (i : InAddr) : Bytes := (ascii ".").intercalate (i.octets.map fun o => decimal o.toNat)

/-- The octets as one number, the first one most significant. -/
def key (i : InAddr) : ℕ :=
  ((i.a.toNat * 2 ^ 8 + i.b.toNat) * 2 ^ 8 + i.c.toNat) * 2 ^ 8 + i.d.toNat

end InAddr

/-- An `Address` with a `sockaddr_in`. -/
structure SockaddrIn where
  addr : InAddr
  port : UInt16
deriving DecidableEq

/-- `getaddrinfo` with `AI_NUMERICHOST`. -/
structure NumericHost where
  lookup : Bytes → Option InAddr
  lookup_str : ∀ i : InAddr, lookup i.str = some i

namespace SockaddrIn

/-- `Address::ip`. -/
def ip (s : SockaddrIn) : Bytes := s.addr.str

/-- `Address::Address( ip, port )`; the exception is a `tagged_error`. -/
def new (host : NumericHost) (ip : Bytes) (port : UInt16) : Except Fault SockaddrIn :=
  match host.lookup ip with
  | some addr => .ok ⟨addr, port⟩
  | none => .error (.unixError
      (ascii "getaddrinfo(" ++ ip ++ ascii ":" ++ decimal port.toNat ++ ascii ", numeric" ++ ascii ")"))

/-- The bytes that `operator<` compares, as one number. -/
def key (s : SockaddrIn) : ℕ := s.port.toNat * 2 ^ 32 + s.addr.key

/-- `Address::cgnat`. -/
def cgnat (lastOctet : UInt8) : SockaddrIn := ⟨⟨100, 64, 0, lastOctet⟩, 0⟩

/-- `set::emplace`, on the elements in their order. -/
def emplace (s : SockaddrIn) : List SockaddrIn → List SockaddrIn
  | [] => [s]
  | x :: xs =>
      if s.key < x.key then s :: x :: xs
      else if x.key < s.key then x :: emplace s xs
      else x :: xs

end SockaddrIn

/-! ### What is printed is read -/

/-- A number is what its digits say. -/
theorem decimal_injective : Function.Injective decimal := by
  intro n m h
  rw [← digitsValue_decimal n, h, digitsValue_decimal]

/-- There is no dot in a number. -/
theorem dot_not_mem_decimal (n : ℕ) : 46 ∉ decimal n := by
  intro h
  have hdigit := isSome_of_mem_decimal h
  revert hdigit
  decide

/-- The text of an address is its numbers with dots between them. -/
theorem InAddr.splitOn_str (i : InAddr) :
    i.str.splitOn 46 = i.octets.map fun o => decimal o.toNat := by
  have hdot : ascii "." = [46] := by decide
  rw [InAddr.str, hdot]
  refine List.splitOn_intercalate 46 (fun l hl => ?_) (by simp [octets])
  obtain ⟨o, -, rfl⟩ := List.mem_map.1 hl
  exact dot_not_mem_decimal _

/-- An address is what its text says. -/
theorem InAddr.str_injective : Function.Injective InAddr.str := by
  intro i j h
  have hsplit := congrArg (List.splitOn 46) h
  rw [InAddr.splitOn_str, InAddr.splitOn_str] at hsplit
  simp only [octets, List.map_cons, List.map_nil, List.cons.injEq, and_true] at hsplit
  obtain ⟨ha, hb, hc, hd⟩ := hsplit
  cases i
  cases j
  simp only [InAddr.mk.injEq]
  exact ⟨UInt8.toNat_inj.1 (decimal_injective ha), UInt8.toNat_inj.1 (decimal_injective hb),
    UInt8.toNat_inj.1 (decimal_injective hc), UInt8.toNat_inj.1 (decimal_injective hd)⟩

namespace SockaddrIn

end SockaddrIn

end V2Proxy
