/-
# `Interfaces`

`src/util/interfaces.cc`: a shell takes the first two addresses of `100.64.0.0/24` that
nothing uses.  In use are the addresses of the interfaces, the destinations of the routes,
as `/proc/net/route` has them, and the address of the shell around it.

For a table as the kernel writes it (`routeTable`) the two addresses are found just if
there are two, and they are the first ones (`twoUnassignedAddresses_eq`).  What the kernel
says is an argument: the addresses that `getifaddrs` lists, and the text of the table.
-/

import V2Proxy.Util.Address
import V2Proxy.Util.Numerals

namespace V2Proxy

open Foundations

/-- `Interfaces`: the addresses in use. -/
structure Interfaces where
  addressesInUse : List SockaddrIn

namespace Interfaces

/-- `Interfaces::add_address`. -/
def addAddress (i : Interfaces) (addr : SockaddrIn) : Interfaces where
  addressesInUse := i.addressesInUse ++ [addr]

/-- The destination of a line of the table. -/
def routeDestination (line : Bytes) : Except Fault SockaddrIn :=
  match find (ascii "\t") line with
  | none => .error (.runtimeError (ascii "/proc/net/route line: unknown format"))
  | some start =>
      match findFrom (ascii "\t") line (start + 1) with
      | none => .error (.runtimeError (ascii "/proc/net/route line: unknown format"))
      | some stop =>
          if stop - (start + 1) ≠ 8 then
            .error (.runtimeError (ascii "/proc/net/route destination address: unknown format"))
          else do
            let destAddress ← substr line (start + 1) (stop - (start + 1))
            let sAddr ← myatoi destAddress 16
            return ⟨.ofSAddr (toUInt32 sAddr), 0⟩

/-- `Interfaces::Interfaces`. -/
def new (ifaddrs : List SockaddrIn) (allRoutes : Bytes) : Except Fault Interfaces :=
  if allRoutes = [] then .ok ⟨ifaddrs⟩
  else
    let lines := getLines allRoutes
    if find (ascii "Iface") (lines.head?.getD []) ≠ some 0 then
      .error (.runtimeError (ascii "/proc/net/route: unknown format"))
    else do
      let routes ← lines.tail.mapM routeDestination
      return ⟨ifaddrs ++ routes⟩

/-- `Interfaces::address_in_use`. -/
def addressInUse (i : Interfaces) (addr : SockaddrIn) : Bool :=
  i.addressesInUse.any fun x => addr.ip = x.ip

/-- The loop of `first_unassigned_address`, over `last_octet`. -/
def search (i : Interfaces) : Loop Fault ℕ (SockaddrIn × ℕ) where
  step lastOctet :=
    if lastOctet ≤ 255 then
      let candidate := SockaddrIn.cgnat (.ofNat lastOctet)
      if i.addressInUse candidate = false then do
        assert (candidate.port = 0) "candidate.port() == 0"
        return .inr (candidate, lastOctet)
      else .ok (.inl (lastOctet + 1))
    else .error (.runtimeError (ascii "Interfaces: could not find free interface address"))
  measure lastOctet := 256 - lastOctet
  decreases {s s'} h := by
    split_ifs at h with hle
    · dsimp only at h
      split_ifs at h
      · obtain ⟨_, -, h⟩ := bind_eq_ok.1 h
        cases h
      · cases h
        omega

/-- `Interfaces::first_unassigned_address`. -/
def firstUnassignedAddress (i : Interfaces) (lastOctet : ℕ) : Except Fault (SockaddrIn × ℕ) :=
  i.search.run lastOctet

end Interfaces

/-- `two_unassigned_addresses`. -/
def twoUnassignedAddresses (ifaddrs : List SockaddrIn) (allRoutes : Bytes) (avoid : SockaddrIn) :
    Except Fault (SockaddrIn × SockaddrIn) := do
  let interfaces ← Interfaces.new ifaddrs allRoutes
  let interfaces := interfaces.addAddress avoid
  let one ← interfaces.firstUnassignedAddress 1
  let two ← interfaces.firstUnassignedAddress (one.2 + 1)
  return (one.1, two.1)

/-! ### The table of routes -/

/-- `%X`, of one digit. -/
def hexDigit (d : ℕ) : UInt8 := if d < 10 then .ofNat (48 + d) else .ofNat (55 + d)

/-- `%08X`. -/
def hex8 (n : ℕ) : Bytes := [7, 6, 5, 4, 3, 2, 1, 0].map fun i => hexDigit (n / 16 ^ i % 16)

/-- A line of the table: the name of the interface, the destination and the other columns. -/
structure Route where
  iface : Bytes
  destination : UInt32
  columns : Bytes
  iface_oneLine : 9 ∉ iface ∧ 10 ∉ iface
  columns_oneLine : 10 ∉ columns

/-- A line of the routing table. -/
def Route.line (r : Route) : Bytes :=
  r.iface ++ ascii "\t" ++ hex8 r.destination.toNat ++ ascii "\t" ++ r.columns

/-- The address that the route leads to. -/
def Route.address (r : Route) : SockaddrIn := ⟨.ofSAddr r.destination, 0⟩

/-- `/proc/net/route`. -/
def routeTable (header : Bytes) (routes : List Route) : Bytes :=
  ((ascii "Iface" ++ header) :: routes.map Route.line).flatMap (· ++ [10])

/-- A digit has its value. -/
theorem digitValue_hexDigit : ∀ d < 16, digitValue 16 (hexDigit d) = some d := by
  decide

/-- Eight digits are digits. -/
theorem isSome_of_mem_hex8 {n : ℕ} {c : UInt8} (h : c ∈ hex8 n) : (digitValue 16 c).isSome := by
  obtain ⟨i, -, rfl⟩ := List.mem_map.1 h
  rw [digitValue_hexDigit _ (Nat.mod_lt _ (by decide))]
  rfl

/-- Eight digits have the value of the number. -/
theorem digitsValue_hex8 {n : ℕ} (h : n < 2 ^ 32) : digitsValue 16 (hex8 n) = n := by
  have hdigit : ∀ i, digitValue 16 (hexDigit (n / 16 ^ i % 16)) = some (n / 16 ^ i % 16) := fun i =>
    digitValue_hexDigit _ (Nat.mod_lt _ (by decide))
  have hstep : ∀ i, n / 16 ^ (i + 1) * 16 + n / 16 ^ i % 16 = n / 16 ^ i := by
    intro i
    rw [pow_succ, ← Nat.div_div_eq_div_mul]
    omega
  have hfirst : 0 * 16 + n / 16 ^ 7 % 16 = n / 16 ^ 7 := by omega
  simp only [digitsValue, hex8, List.map_cons, List.map_nil, List.foldl_cons, List.foldl_nil, hdigit,
    Option.getD_some]
  rw [hfirst, hstep 6, hstep 5, hstep 4, hstep 3, hstep 2, hstep 1, hstep 0, pow_zero, Nat.div_one]

/-- `myatoi` reads the number. -/
theorem myatoi_hex8 (n : UInt32) : myatoi (hex8 n.toNat) 16 = .ok n.toNat := by
  have hlt := n.toNat_lt
  rw [myatoi_eq_ok_iff]
  refine ⟨⟨[], [], [], hex8 n.toNat, rfl, by simp, Or.inl rfl, Or.inl rfl, by simp [hex8],
    fun c hc => isSome_of_mem_hex8 hc, ?_⟩, by omega, by omega⟩
  rw [digitsValue_hex8 hlt]
  rfl

/-- The cast back. -/
theorem toUInt32_toNat (n : UInt32) : toUInt32 n.toNat = n := by
  have hlt := n.toNat_lt
  have hvalue : ((n.toNat : ℤ) % 2 ^ 32).toNat = n.toNat := by omega
  rw [toUInt32, hvalue, UInt32.ofNat_toNat]

/-- **A line of the table is read.** -/
theorem routeDestination_line (r : Route) : Interfaces.routeDestination r.line = .ok r.address := by
  have htab : ascii "\t" = [9] := by decide
  have hlength : (hex8 r.destination.toNat).length = 8 := rfl
  have hhex : 9 ∉ hex8 r.destination.toNat := by
    intro h
    have hdigit := isSome_of_mem_hex8 h
    revert hdigit
    decide
  have hline : r.line = r.iface ++ 9 :: (hex8 r.destination.toNat ++ 9 :: r.columns) := by
    simp [Route.line, htab]
  have hdrop : r.line.drop (r.iface.length + 1) = hex8 r.destination.toNat ++ 9 :: r.columns := by
    rw [hline, ← List.drop_drop, List.drop_left]
    rfl
  have hstart : find (ascii "\t") r.line = some r.iface.length := by
    rw [htab, hline]
    exact find_singleton_append r.iface_oneLine.1 _
  have hstop : findFrom (ascii "\t") r.line (r.iface.length + 1) = some (r.iface.length + 1 + 8) := by
    rw [findFrom, hdrop, htab, find_singleton_append hhex, hlength, Option.map_some, if_pos]
    rw [hline, List.length_append, List.length_cons]
    omega
  rw [Interfaces.routeDestination, hstart]
  dsimp only
  rw [hstop]
  dsimp only
  rw [if_neg (by omega), substr, if_pos, hdrop, ok_bind]
  · rw [show r.iface.length + 1 + 8 - (r.iface.length + 1) = (hex8 r.destination.toNat).length by omega,
      List.take_left, myatoi_hex8, ok_bind, toUInt32_toNat]
    rfl
  · rw [hline, List.length_append, List.length_cons]
    omega

/-- **The routes of a table are in use.** -/
theorem new_routeTable {header : Bytes} (hheader : 10 ∉ header) (ifaddrs : List SockaddrIn)
    (routes : List Route) :
    Interfaces.new ifaddrs (routeTable header routes) = .ok ⟨ifaddrs ++ routes.map Route.address⟩ := by
  have hiface : 10 ∉ ascii "Iface" := by decide
  have htab : 10 ∉ ascii "\t" := by decide
  have hhex : ∀ n, 10 ∉ hex8 n := by
    intro n h
    have hdigit := isSome_of_mem_hex8 h
    revert hdigit
    decide
  have hlines : getLines (routeTable header routes) =
      (ascii "Iface" ++ header) :: routes.map Route.line := by
    refine getLines_flatMap fun line hline => ?_
    rcases List.mem_cons.1 hline with rfl | hline
    · simp [hiface, hheader]
    · obtain ⟨r, -, rfl⟩ := List.mem_map.1 hline
      simp [Route.line, htab, hhex, r.iface_oneLine.2, r.columns_oneLine]
  have hroutes : ∀ routes : List Route,
      (routes.map Route.line).mapM Interfaces.routeDestination = .ok (routes.map Route.address) := by
    intro routes
    induction routes with
    | nil => rfl
    | cons r routes ih =>
        rw [List.map_cons, List.mapM_cons, routeDestination_line, ok_bind, ih, ok_bind]
        rfl
  have hfind : find (ascii "Iface") (ascii "Iface" ++ header) = some 0 :=
    find_eq_some_iff.2 ⟨Nat.zero_le _, List.prefix_append _ _, fun j hj => absurd hj (Nat.not_lt_zero j)⟩
  rw [Interfaces.new, if_neg (by simp [routeTable]), hlines]
  simp only [List.head?_cons, Option.getD_some, List.tail_cons, hfind, hroutes, ok_bind]
  rfl

/-! ### The search -/

/-- The octets from `n` on whose addresses nothing uses. -/
def freeOctets (used : List SockaddrIn) (n : ℕ) : List ℕ :=
  (List.range' n (256 - n)).filter fun k => used.all fun x => x.addr ≠ (SockaddrIn.cgnat (.ofNat k)).addr

/-- An address is free if nothing has it. -/
theorem addressInUse_eq_false {used : List SockaddrIn} {addr : SockaddrIn} :
    (Interfaces.mk used).addressInUse addr = false ↔ used.all (fun x => x.addr ≠ addr.addr) = true := by
  rw [Interfaces.addressInUse, List.any_eq_false, List.all_eq_true]
  refine forall₂_congr fun x _ => ?_
  rw [decide_eq_true_eq, decide_eq_true_eq]
  exact not_congr (InAddr.str_injective.eq_iff.trans eq_comm)

/-- The free octets from `n` on, by the first of them. -/
theorem freeOctets_eq (used : List SockaddrIn) {n : ℕ} (hn : n ≤ 255) :
    freeOctets used n = if (Interfaces.mk used).addressInUse (.cgnat (.ofNat n)) = false
      then n :: freeOctets used (n + 1) else freeOctets used (n + 1) := by
  rw [freeOctets, show 256 - n = 256 - (n + 1) + 1 by omega, List.range'_succ, List.filter_cons]
  simp only [addressInUse_eq_false]
  rfl

/-- **The search finds the first octet that is free.** -/
theorem firstUnassignedAddress_eq (used : List SockaddrIn) {n : ℕ} (hn : n ≤ 256) :
    (Interfaces.mk used).firstUnassignedAddress n =
      match freeOctets used n with
      | k :: _ => .ok (.cgnat (.ofNat k), k)
      | [] => .error (.runtimeError (ascii "Interfaces: could not find free interface address")) := by
  rw [Interfaces.firstUnassignedAddress]
  induction h : 256 - n generalizing n with
  | zero =>
      obtain rfl : n = 256 := by omega
      exact Loop.run_of_error rfl
  | succ m ih =>
      rw [freeOctets_eq used (by omega)]
      split_ifs with hfree
      · refine Loop.run_of_leave ?_
        rw [Interfaces.search]
        dsimp only
        rw [if_pos (by omega), if_pos hfree]
        rfl
      · have hnext : (Interfaces.mk used).search.step n = .ok (.inl (n + 1)) := by
          rw [Interfaces.search]
          dsimp only
          rw [if_pos (by omega), if_neg hfree]
        rw [Loop.run_of_next hnext]
        exact ih (by omega) (by omega)

/-- **The free octets behind the first one.** -/
theorem freeOctets_of_cons {used : List SockaddrIn} {n k : ℕ} {rest : List ℕ}
    (h : freeOctets used n = k :: rest) : n ≤ k ∧ k ≤ 255 ∧ freeOctets used (k + 1) = rest := by
  induction hm : 256 - n generalizing n with
  | zero =>
      rw [freeOctets, hm] at h
      cases h
  | succ m ih =>
      rw [freeOctets_eq used (by omega)] at h
      split_ifs at h
      · cases h
        exact ⟨Nat.le_refl _, by omega, rfl⟩
      · obtain ⟨hle, hmax, hrest⟩ := ih h (by omega)
        exact ⟨by omega, hmax, hrest⟩

/-- **The first two addresses that nothing uses,** if there are two.  The table is as the
kernel writes it: nothing at all where there is no route, or a header and the routes. -/
theorem twoUnassignedAddresses_eq (ifaddrs : List SockaddrIn) {table header : Bytes}
    {routes : List Route} (avoid : SockaddrIn)
    (htable : table = [] ∧ routes = [] ∨ 10 ∉ header ∧ table = routeTable header routes) :
    twoUnassignedAddresses ifaddrs table avoid =
      match freeOctets (ifaddrs ++ routes.map Route.address ++ [avoid]) 1 with
      | i :: j :: _ => .ok (.cgnat (.ofNat i), .cgnat (.ofNat j))
      | _ => .error (.runtimeError (ascii "Interfaces: could not find free interface address")) := by
  have hnew : Interfaces.new ifaddrs table = .ok ⟨ifaddrs ++ routes.map Route.address⟩ := by
    rcases htable with ⟨rfl, rfl⟩ | ⟨hheader, rfl⟩
    · rw [Interfaces.new, if_pos rfl, List.map_nil, List.append_nil]
    · exact new_routeTable hheader ifaddrs routes
  rw [twoUnassignedAddresses, hnew, ok_bind]
  dsimp only [Interfaces.addAddress]
  rw [firstUnassignedAddress_eq _ (by decide)]
  rcases hfree : freeOctets (ifaddrs ++ routes.map Route.address ++ [avoid]) 1 with _ | ⟨i, rest⟩
  · rfl
  · obtain ⟨-, hmax, hrest⟩ := freeOctets_of_cons hfree
    rw [ok_bind]
    dsimp only
    rw [firstUnassignedAddress_eq _ (by omega), hrest]
    rcases rest with _ | ⟨j, rest⟩
    · rfl
    · rfl

/-- Inside of a shell: the default route and the one to the other end. -/
def insideRoutes : List Route := [
  { iface := ascii "ingress", destination := 0, columns := ascii "01004064\t0003",
    iface_oneLine := by decide, columns_oneLine := by decide },
  { iface := ascii "ingress", destination := 0x01004064, columns := ascii "00000000\t0005",
    iface_oneLine := by decide, columns_oneLine := by decide }]

/-- Two addresses are in use, and the first two that are free are returned. -/
theorem twoUnassignedAddresses_inside :
    twoUnassignedAddresses [⟨⟨127, 0, 0, 1⟩, 0⟩, .cgnat 2] (routeTable (ascii "\tDestination") insideRoutes)
      (.cgnat 1) = .ok (.cgnat 3, .cgnat 4) := by
  rw [twoUnassignedAddresses_eq _ _ (Or.inr ⟨by decide, rfl⟩)]
  decide +kernel

end V2Proxy
