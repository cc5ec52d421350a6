import Mathlib.Data.Stream.Defs
import Zuzu.Core.LTS
import Zuzu.L5Net.TcpPcb

/-!
# The DHCP client and address conflict detection (`netd/app/dhcp.c`, `netd/link/arp.c`)

Two state machines that share the interface: the DHCP client, and the ARP probing of the
address that it is about to take. Received packets and the ticks of the main loop drive them,
and the verdict of the probing goes back to the client through a callback. They read the
clock, which is a count of milliseconds cut down to 32 bits, and send through UDP, which may
fail.

The table of resolved addresses and the answers to ARP requests have no part in this and
are left out. Paths are relative to `user/services/`.
-/
namespace Zuzu.L5
open Zuzu.Core

abbrev Ipv4Addr := BitVec 32

/-- mirrors netd/common/globals.h:14 -/
def broadcastIp : Ipv4Addr := 0xFFFFFFFF

/-- The interface. mirrors netd/common/globals.h:30-36 -/
structure Netif where
  ip : Ipv4Addr
  netmask : Ipv4Addr
  gateway : Ipv4Addr
  dns : Ipv4Addr
  mac : List Byte
  deriving DecidableEq, Repr

/-! ## Packets -/

/-- Four bytes as they stand in memory. -/
def raw32 (data : List Byte) (off : Nat) : BitVec 32 :=
  data.getD (off + 3) 0 ++ data.getD (off + 2) 0 ++ data.getD (off + 1) 0 ++ data.getD off 0

/-- `ntohl` of four bytes. -/
def net32 (data : List Byte) (off : Nat) : BitVec 32 :=
  data.getD off 0 ++ data.getD (off + 1) 0 ++ data.getD (off + 2) 0 ++ data.getD (off + 3) 0

def net16 (data : List Byte) (off : Nat) : BitVec 16 := data.getD off 0 ++ data.getD (off + 1) 0

/-- The bytes of a number that is copied as it stands in memory. -/
def bytes32 (x : BitVec 32) : List Byte :=
  [x.extractLsb' 0 8, x.extractLsb' 8 8, x.extractLsb' 16 8, x.extractLsb' 24 8]

/-- mirrors netd/app/dhcp.h:28-72 -/
def dhcpMsgSize : Nat := 240
def dhcpAckBufsz : Nat := 576
def dhcpMagicCookie : BitVec 32 := 0x63825363
def dhcpTimeoutMs : Int := 500
def dhcpMaxRetries : Nat := 5
def dhcpRenewRetryMs : Int := 10000
def dhcpDefaultLease : BitVec 32 := 3600
def dhcpLeaseInfinite : BitVec 32 := 0xFFFFFFFF

/-- A message of the client. mirrors netd/app/dhcp.h:8-24; the fields that are always 0 are
left out -/
structure DhcpMsg where
  op : Byte
  htype : Byte
  hlen : Byte
  xid : BitVec 32
  secs : BitVec 16
  flags : BitVec 16
  ciaddr : Ipv4Addr
  chaddr : List Byte
  cookie : BitVec 32
  options : List Byte
  deriving DecidableEq, Repr

/-- The value of option `code` in the options from here on, after `skip` more bytes.
mirrors netd/app/dhcp.c:164-186 -/
def findOption (code : Byte) : Nat → List Byte → Option (List Byte)
  | _, [] => none
  | skip + 1, _ :: rest => findOption code skip rest
  | 0, b :: rest =>
    if b = 255 then none
    else if b = 0 then findOption code 0 rest
    else
      match rest with
      | [] => none
      | len :: body =>
        if body.length < len.toNat then none
        else if b = code then some (body.take len.toNat)
        else findOption code (len.toNat + 1) (len :: body)

/-- mirrors netd/app/dhcp.c:158-187 -/
def dhcpFindOption (data : List Byte) (code : Byte) : Option (List Byte) :=
  findOption code 0 (data.drop dhcpMsgSize)

/-- mirrors netd/app/dhcp.h:18 -/
def yiaddr (data : List Byte) : Ipv4Addr := raw32 data 16

/-- mirrors netd/link/arp.h:13-23, the fields that conflict detection reads -/
structure ArpPacket where
  sha : List Byte
  spa : Ipv4Addr
  tpa : Ipv4Addr
  deriving DecidableEq, Repr

/-- mirrors netd/link/arp.c:181-190 -/
def parseArp (data : List Byte) : Option ArpPacket :=
  if data.length < 28 then none
  else if net16 data 0 ≠ 1 ∨ net16 data 2 ≠ 0x0800 ∨ data.getD 4 0 ≠ 6 ∨ data.getD 5 0 ≠ 4 then
    none
  else some ⟨(data.drop 8).take 6, raw32 data 14, raw32 data 24⟩

/-! ## State -/

/-- mirrors netd/app/dhcp.h:78-86 -/
inductive DhcpState
  | init | selecting | requesting | probing | bound | renewing | rebinding
  deriving DecidableEq, Repr

/-- mirrors netd/app/dhcp.c:14-31; `on_bound` only writes a log line -/
structure Dhcp where
  state : DhcpState
  xid : BitVec 32
  sentMs : BitVec 32
  retries : Nat
  offeredIp : Ipv4Addr
  serverId : Ipv4Addr
  startMs : BitVec 32
  boundMs : BitVec 32
  leaseSecs : BitVec 32
  t1Secs : BitVec 32
  t2Secs : BitVec 32
  notified : Bool
  ackBuf : List Byte
  deriving DecidableEq, Repr

/-- mirrors netd/link/arp.h:34-35 -/
def acdProbeNum : Nat := 3
def acdProbeMs : BitVec 32 := 1000

/-- mirrors netd/link/arp.c:16-22; the verdict always goes to `DhcpAcdDone` -/
structure Acd where
  active : Bool
  ip : Ipv4Addr
  probes : Nat
  nextMs : BitVec 32
  deriving DecidableEq, Repr

/-- What happens besides the changes of the state. -/
inductive Note
  | sent (dst : Ipv4Addr) (msg : DhcpMsg) (ok : Bool)  -- a call of `UdpSend`
  | acked                                              -- an ACK is put aside for probing
  | probe (ip : Ipv4Addr)                              -- an ARP probe is offered
  | heard (pkt : ArpPacket)                            -- an ARP packet is received
  | bound (ip : Ipv4Addr) (fresh : Bool)               -- `ip` is taken, or renewed
  deriving DecidableEq, Repr

/-- The client, the probing, the interface and what has happened so far. -/
@[ext] structure Node where
  dhcp : Dhcp
  acd : Acd
  netif : Netif
  log : List Note
  deriving DecidableEq

/-- What comes from outside while a handler runs: the uptime in milliseconds at each reading
of the clock, and whether each call of `UdpSend` succeeds. -/
structure NetEnv where
  clock : Stream' Nat
  udp : Stream' Bool

/-- A node while a handler works on it. -/
structure Dx extends Node where
  clock : Stream' Nat
  udp : Stream' Bool

variable (d : Dhcp) (c : Dx) (data : List Byte)

namespace Dx

/-- mirrors netd/common/globals.h:38 -/
def now : BitVec 32 := BitVec.ofNat 32 c.clock.head

/-- After one reading of the clock. -/
def later : Dx := { c with clock := c.clock.tail }

def setDhcp (d : Dhcp) : Dx := { c with dhcp := d }

def setAcd (a : Acd) : Dx := { c with acd := a }

def put (n : Note) : Dx := { c with log := c.log ++ [n] }

/-- mirrors netd/transport/udp.c:102-139 -/
def udpSend (dst : Ipv4Addr) (m : DhcpMsg) : Dx :=
  { c.put (.sent dst m c.udp.head) with udp := c.udp.tail }

end Dx

/-! ## Messages of the client -/

/-- mirrors netd/app/dhcp.c:33-55 -/
def dhcpOpt (code : Byte) (value : List Byte) : List Byte :=
  code :: BitVec.ofNat 8 value.length :: value

/-- The fixed header and the `secs` field; one reading of the clock.
mirrors netd/app/dhcp.c:57-72 -/
def dhcpBuild (options : List Byte) : DhcpMsg where
  op := 1
  htype := 1
  hlen := 6
  xid := c.dhcp.xid
  secs := BitVec.ofNat 16 (min ((c.now - c.dhcp.startMs).toNat / 1000) 0xFFFF)
  flags := 0x8000
  ciaddr := 0
  chaddr := c.netif.mac
  cookie := dhcpMagicCookie
  options := options

/-- The options that the client asks for. -/
def paramList : List Byte := dhcpOpt 55 [1, 3, 6]

/-- mirrors netd/app/dhcp.c:74-92 -/
def dhcpSendDiscover : Dx :=
  let m := dhcpBuild c (dhcpOpt 53 [1] ++ paramList ++ [255])
  let ok := c.udp.head
  let c := c.later.udpSend broadcastIp m
  if ok then (c.setDhcp { c.dhcp with state := .selecting, sentMs := c.now }).later else c

/-- mirrors netd/app/dhcp.c:94-115 -/
def dhcpSendRequest : Dx :=
  let m := dhcpBuild c (dhcpOpt 53 [3] ++ dhcpOpt 50 (bytes32 c.dhcp.offeredIp) ++
    dhcpOpt 54 (bytes32 c.dhcp.serverId) ++ paramList ++ [255])
  let ok := c.udp.head
  let c := c.later.udpSend broadcastIp m
  if ok then (c.setDhcp { c.dhcp with state := .requesting, sentMs := c.now }).later else c

/-- mirrors netd/app/dhcp.c:117-139 -/
def dhcpSendRenew (dst : Ipv4Addr) : Dx :=
  let m := { dhcpBuild c (dhcpOpt 53 [3] ++ paramList ++ [255]) with
    ciaddr := c.netif.ip
    flags := 0 }
  let ok := c.udp.head
  let c := c.later.udpSend dst m
  if ok then (c.setDhcp { c.dhcp with sentMs := c.now }).later else c

/-- mirrors netd/app/dhcp.c:141-156 -/
def dhcpSendDecline : Dx :=
  let m := dhcpBuild c (dhcpOpt 53 [4] ++ dhcpOpt 50 (bytes32 c.dhcp.offeredIp) ++
    dhcpOpt 54 (bytes32 c.dhcp.serverId) ++ [255])
  c.later.udpSend broadcastIp m

/-! ## The life of a lease -/

/-- mirrors netd/app/dhcp.c:189-196 -/
def dhcpRestart : Dx :=
  let c := (c.setDhcp { c.dhcp with state := .init, xid := c.now }).later
  let c := (c.setDhcp { c.dhcp with startMs := c.now, retries := 0 }).later
  dhcpSendDiscover c

/-- An option of four bytes, or of at least four when it is a list.
mirrors netd/app/dhcp.c:208-218 -/
def optIp (code : Byte) (list : Bool) (old : Ipv4Addr) : Ipv4Addr :=
  match dhcpFindOption data code with
  | none => old
  | some v => if v.length = 4 ∨ list ∧ 4 ≤ v.length then raw32 v 0 else old

/-- mirrors netd/app/dhcp.c:220-226 -/
def leaseOf : BitVec 32 :=
  match dhcpFindOption data 51 with
  | none => dhcpDefaultLease
  | some v => if v.length = 4 then net32 v 0 else dhcpDefaultLease

/-- The interface that an ACK describes. mirrors netd/app/dhcp.c:206-218 -/
def Netif.configure (n : Netif) (data : List Byte) : Netif :=
  { n with
    ip := yiaddr data
    netmask := optIp data 1 false n.netmask
    gateway := optIp data 3 true n.gateway
    dns := optIp data 6 true n.dns }

/-- The lease of an ACK that is taken at `now`. mirrors netd/app/dhcp.c:220-239 -/
def Dhcp.enterBound (lease now : BitVec 32) : Dhcp :=
  { d with
    leaseSecs := lease
    t1Secs := lease / 2
    t2Secs := lease - lease / 8
    boundMs := now
    retries := 0
    state := .bound
    notified := true }

/-- mirrors netd/app/dhcp.c:198-240 -/
def dhcpEnterBound (fresh : Bool) : Dx :=
  let c := { c with netif := c.netif.configure data }
  ((c.setDhcp (c.dhcp.enterBound (leaseOf data) c.now)).later).put (.bound (yiaddr data) fresh)

/-- mirrors netd/app/dhcp.c:242-254 -/
def dhcpAcdDone (conflict : Bool) : Dx :=
  if conflict then dhcpRestart (dhcpSendDecline c) else dhcpEnterBound c c.dhcp.ackBuf true

/-- mirrors netd/link/arp.c:47-54 -/
def arpAcdStart (ip : Ipv4Addr) : Dx := (c.setAcd ⟨true, ip, 0, c.now⟩).later

/-- mirrors netd/link/arp.c:56-66 -/
def arpAcdFinish (conflict : Bool) : Dx :=
  if ¬c.acd.active then c else dhcpAcdDone (c.setAcd { c.acd with active := false }) conflict

/-- mirrors netd/app/dhcp.c:256-267 -/
def dhcpBeginAcd : Dx :=
  let c := c.setDhcp { c.dhcp with ackBuf := data.take dhcpAckBufsz, state := .probing }
  arpAcdStart (c.put .acked) c.dhcp.offeredIp

/-! ## Handlers -/

/-- The type of a message that is for this exchange. mirrors netd/app/dhcp.c:275-289 -/
def Dhcp.accepts : Option Byte :=
  if data.length < dhcpMsgSize then none
  else if data.getD 0 0 ≠ 2 then none
  else if net32 data 236 ≠ dhcpMagicCookie then none
  else if raw32 data 4 ≠ d.xid then none
  else
    match dhcpFindOption data 53 with
    | some [t] => some t
    | _ => none

/-- The lease runs out and has not been renewed yet. mirrors netd/app/dhcp.c:291 -/
def DhcpState.leased : DhcpState → Bool
  | .renewing | .rebinding => true
  | _ => false

/-- An option 54 of four bytes. mirrors netd/app/dhcp.c:296-299 and 306-308 -/
def serverIdOf : Option Ipv4Addr :=
  match dhcpFindOption data 54 with
  | none => none
  | some v => if v.length = 4 then some (raw32 v 0) else none

/-- mirrors netd/app/dhcp.c:293-301 -/
def onOffer : Dx :=
  let c := c.setDhcp { c.dhcp with offeredIp := yiaddr data }
  match serverIdOf data with
  | none => c
  | some id => dhcpSendRequest (c.setDhcp { c.dhcp with serverId := id })

/-- mirrors netd/app/dhcp.c:303-314 -/
def onAck : Dx :=
  let d := c.dhcp
  let c := c.setDhcp { d with serverId := (serverIdOf data).getD d.serverId }
  if d.state.leased then dhcpEnterBound c data false else dhcpBeginAcd c data

/-- mirrors netd/app/dhcp.c:269-319 -/
def dhcpRecv : Dx :=
  match c.dhcp.accepts data with
  | none => c
  | some t =>
    let asked := c.dhcp.state = .requesting ∨ c.dhcp.state.leased
    if c.dhcp.state = .selecting ∧ t = 2 then onOffer c data
    else if asked ∧ t = 5 then onAck c data
    else if asked ∧ t = 6 then dhcpRestart c
    else c

/-- mirrors netd/app/dhcp.c:321-331 -/
def dhcpInit : Dx :=
  dhcpRestart { c with
    dhcp := ⟨.init, 0, 0, 0, 0, 0, 0, 0, 0, 0, 0, false, []⟩
    netif := ⟨0, 0, 0, 0, c.netif.mac⟩ }

/-- `(int32_t)(now - ms)` -/
def sinceMs (now ms : BitVec 32) : Int := (now - ms).toInt

/-- Whole seconds for which the lease has been held. mirrors netd/app/dhcp.c:367 and 379 -/
def Dhcp.held (now : BitVec 32) : BitVec 32 := (now - d.boundMs) / 1000

/-- mirrors netd/app/dhcp.c:349-361 -/
def tickAsking (now : BitVec 32) : Dx :=
  if sinceMs now c.dhcp.sentMs < dhcpTimeoutMs then c
  else if c.dhcp.retries ≥ dhcpMaxRetries then dhcpRestart c
  else
    let c := c.setDhcp { c.dhcp with retries := c.dhcp.retries + 1 }
    if c.dhcp.state = .selecting then dhcpSendDiscover c else dhcpSendRequest c

/-- mirrors netd/app/dhcp.c:363-375 -/
def tickBound (now : BitVec 32) : Dx :=
  if c.dhcp.leaseSecs = dhcpLeaseInfinite then c
  else if c.dhcp.t2Secs ≤ c.dhcp.held now then
    dhcpSendRenew (c.setDhcp { c.dhcp with state := .rebinding }) broadcastIp
  else if c.dhcp.t1Secs ≤ c.dhcp.held now then
    dhcpSendRenew (c.setDhcp { c.dhcp with state := .renewing }) c.dhcp.serverId
  else c

/-- mirrors netd/app/dhcp.c:385-389 -/
def tickRenew (now : BitVec 32) : Dx :=
  let c := if c.dhcp.state = .renewing ∧ c.dhcp.t2Secs ≤ c.dhcp.held now then
    c.setDhcp { c.dhcp with state := .rebinding } else c
  if dhcpRenewRetryMs ≤ sinceMs now c.dhcp.sentMs then
    dhcpSendRenew c (if c.dhcp.state = .renewing then c.dhcp.serverId else broadcastIp)
  else c

/-- mirrors netd/app/dhcp.c:377-390 -/
def tickLeased (now : BitVec 32) : Dx :=
  if c.dhcp.leaseSecs ≤ c.dhcp.held now then
    dhcpRestart { c with netif := ⟨0, 0, 0, 0, c.netif.mac⟩ }
  else tickRenew c now

/-- mirrors netd/app/dhcp.c:339-392 -/
def dhcpTick : Dx :=
  let now := c.now
  let c := c.later
  match c.dhcp.state with
  | .init | .probing => c
  | .selecting | .requesting => tickAsking c now
  | .bound => tickBound c now
  | .renewing | .rebinding => tickLeased c now

/-- The packet comes from another host that uses `ip` or probes it.
mirrors netd/link/arp.c:195-199 -/
def ArpPacket.conflicts (p : ArpPacket) (mac : List Byte) (ip : Ipv4Addr) : Bool :=
  p.sha ≠ mac ∧ (p.spa = ip ∨ p.spa = 0 ∧ p.tpa = ip)

/-- mirrors netd/link/arp.c:178-203 -/
def arpRx : Dx :=
  match parseArp data with
  | none => c
  | some p =>
    let c := c.put (.heard p)
    if c.acd.active ∧ p.conflicts c.netif.mac c.acd.ip then arpAcdFinish c true else c

/-- mirrors netd/link/arp.c:129-147 -/
def arpTick : Dx :=
  let now := c.now
  let c := c.later
  if c.acd.active ∧ 0 ≤ sinceMs now c.acd.nextMs then
    if c.acd.probes < acdProbeNum then
      (c.put (.probe c.acd.ip)).setAcd
        { c.acd with probes := c.acd.probes + 1, nextMs := now + acdProbeMs }
    else arpAcdFinish c false
  else c

/-! ## Runs -/

/-- What reaches the two machines from outside. -/
inductive DhcpEvent
  | recv (data : List Byte)
  | tick
  | arp (data : List Byte)
  | arpTick
  deriving DecidableEq

def Node.with (s : Node) (env : NetEnv) : Dx := { s with clock := env.clock, udp := env.udp }

def DhcpEvent.exec : DhcpEvent → Dx
  | .recv data => dhcpRecv c data
  | .tick => dhcpTick c
  | .arp data => arpRx c data
  | .arpTick => Zuzu.L5.arpTick c

def Node.step (s : Node) (l : DhcpEvent × NetEnv) : Node := (l.1.exec (s.with l.2)).toNode

/-- A node with address `mac` as `DhcpInit` finds it after `ArpInit`. -/
def Node.blank (mac : List Byte) : Node :=
  ⟨⟨.init, 0, 0, 0, 0, 0, 0, 0, 0, 0, 0, false, []⟩, ⟨false, 0, 0, 0⟩, ⟨0, 0, 0, 0, mac⟩, []⟩

/-- The node when `DhcpInit` returns. -/
def Node.start (mac : List Byte) (env : NetEnv) : Node :=
  (dhcpInit ((Node.blank mac).with env)).toNode

/-- The client from the return of `DhcpInit` on. -/
def dhcpSystem : LTS Node (DhcpEvent × NetEnv) :=
  LTS.ofFun (fun s => ∃ mac env, s = Node.start mac env) fun s l => some (s.step l)

end Zuzu.L5
