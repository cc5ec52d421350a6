import Zuzu.Core.Custody
import Zuzu.L5Net.Dhcp

/-!
# The ARP cache (`netd/link/arp.c`)

The table of neighbours with the packets that wait for their addresses, and the detection of
address conflicts that runs beside it. The clock, the free memory and the frames
come from outside, and so does what the callback of the conflict detection does (`Inner`). The
copies of waiting packets are numbered in the order in which they were made; `freed` is the list of
`free` calls on them, `accepted` what was copied and `learned` what has been learned. `out` has the
frames that were handed to the link, those from a queue with their number.
Paths are relative to `user/services/`.
-/
namespace Zuzu.L5.Link
open Zuzu.Core

/-- The constants of the conflict detection are those of the DHCP model.
mirrors netd/link/arp.h:27-37 -/
def arpMaxEntries : Nat := 64
def arpMaxQueue : Nat := 3
def arpMaxProbes : Nat := 2
def arpProbeMs : Int := 500
def arpReachableMs : BitVec 32 := 60000

abbrev MacAddr := BitVec 48

def broadcastMac : MacAddr := BitVec.allOnes 48

/-- mirrors netd/link/arp.h:39 -/
inductive ArpState
  | free | incomplete | reachable
  deriving DecidableEq

/-- A waiting packet and the number of its copy. mirrors netd/link/arp.h:41-45 -/
structure ArpPending where
  id : Nat
  ethertype : BitVec 16
  data : List (BitVec 8)
  deriving DecidableEq

/-- mirrors netd/link/arp.h:47-56 -/
structure ArpEntry where
  ip : Ipv4Addr := 0
  mac : MacAddr := 0
  state : ArpState := .free
  probes : Nat := 0
  lastTx : BitVec 32 := 0
  expire : BitVec 32 := 0
  queue : List ArpPending := []

/-- mirrors netd/link/arp.h:14-24, in host order -/
structure ArpPacket where
  htype : BitVec 16
  ptype : BitVec 16
  hlen : BitVec 8
  plen : BitVec 8
  oper : BitVec 16
  sha : MacAddr
  spa : Ipv4Addr
  tha : MacAddr
  tpa : Ipv4Addr

/-- mirrors netd/link/arp.c:14-22 -/
structure Acd where
  active : Bool := false
  ip : Ipv4Addr := 0
  probes : Nat := 0
  next : BitVec 32 := 0

/-- What is handed to the link: frames for other parts of netd, ARP packets of our own, and
packets from a queue with their number. -/
inductive ArpOut
  | frame (mac : MacAddr) (ethertype : BitVec 16) (data : List (BitVec 8))
  | packet (mac : MacAddr) (p : ArpPacket)
  | queued (mac : MacAddr) (p : ArpPending)

/-- A packet that was copied, and the address it waits for. -/
structure ArpAccepted where
  ip : Ipv4Addr
  ethertype : BitVec 16
  data : List (BitVec 8)

structure Arp where
  mac : MacAddr            -- `netif.mac`
  ip : Ipv4Addr            -- `netif.ip`
  table : Nat → ArpEntry
  acd : Acd
  out : List ArpOut
  accepted : List ArpAccepted
  freed : List Nat
  learned : List (Ipv4Addr × MacAddr)

namespace Arp

variable (s : Arp) (i : Nat) (ip : Ipv4Addr) (now : BitVec 32)

def setEntry (e : ArpEntry) : Arp :=
  { s with table := Function.update s.table i e }

def emit (o : List ArpOut) : Arp := { s with out := s.out ++ o }

/-- The indices of the table in the order in which they are searched. -/
def slots : List Nat := List.range arpMaxEntries

/-- An ARP packet of our own. mirrors netd/link/arp.c:33-46 and 281-297 -/
def ask (oper : BitVec 16) (spa : Ipv4Addr) (tha : MacAddr) (tpa : Ipv4Addr) : ArpPacket :=
  ⟨1, 0x0800, 6, 4, oper, s.mac, spa, tha, tpa⟩

/-- mirrors netd/link/arp.c:281-297 -/
def arpRequest : Arp :=
  s.emit [.packet broadcastMac (s.ask 1 s.ip 0 ip)]

/-- mirrors netd/link/arp.c:33-46 -/
def arpAcdProbe : Arp :=
  s.emit [.packet broadcastMac (s.ask 1 0 0 ip)]

/-- mirrors netd/link/arp.c:48-55 -/
def arpAcdStart : Arp :=
  { s with acd := ⟨true, ip, 0, now⟩ }

/-- mirrors netd/link/arp.c:69-75 -/
def arpFind : Option Nat :=
  slots.find? fun i => (s.table i).state ≠ .free ∧ (s.table i).ip = ip

/-- mirrors netd/link/arp.c:77-82 -/
def arpFreeEntry : Arp :=
  { s.setEntry i {} with freed := s.freed ++ (s.table i).queue.map ArpPending.id }

/-- mirrors netd/link/arp.c:91-99 -/
def freeSlot : Option Nat := slots.find? fun i => (s.table i).state = .free

/-- The entry that is closest to its end. mirrors netd/link/arp.c:101-108 -/
def victim : Option Nat :=
  slots.foldl (fun v i =>
    if (s.table i).state = .reachable ∧
        (v.all fun j => ((s.table i).expire - (s.table j).expire).toInt < 0) then some i
    else v) none

/-- A new entry. mirrors netd/link/arp.c:94-97 and 112-113 -/
def create : Arp := s.setEntry i { ip, state := .incomplete }

/-- mirrors netd/link/arp.c:84-115 -/
def arpFindOrCreate : Arp × Option Nat :=
  match s.arpFind ip with
  | some i => (s, some i)
  | none =>
    match s.freeSlot with
    | some i => (s.create i ip, some i)
    | none =>
      match s.victim with
      | some i => ((s.arpFreeEntry i).create i ip, some i)
      | none => (s, none)

/-- The entry is learned and the packets that wait for it are sent.
mirrors netd/link/arp.c:123-136 -/
def resolve (mac : MacAddr) (now : BitVec 32) : Arp :=
  let e := s.table i
  let s := { s with learned := s.learned ++ [(e.ip, mac)] }
  if e.state ≠ .reachable then
    { s.setEntry i { e with mac, state := .reachable, expire := now + arpReachableMs, queue := [] }
      with
      out := s.out ++ e.queue.map (.queued mac)
      freed := s.freed ++ e.queue.map ArpPending.id }
  else s.setEntry i { e with mac, expire := now + arpReachableMs }

/-- mirrors netd/link/arp.c:117-137 -/
def arpLearn (mac : MacAddr) (now : BitVec 32) : Arp :=
  match s.arpFindOrCreate ip with
  | (s, none) => s
  | (s, some i) => s.resolve i mac now

/-- A copy is put into the queue if there is room and memory.
mirrors netd/link/arp.c:156-168 -/
def enqueue (ethertype : BitVec 16) (data : List (BitVec 8)) (memory : Bool) : Arp :=
  let e := s.table i
  if e.queue.length < arpMaxQueue ∧ memory then
    { s.setEntry i { e with queue := e.queue ++ [⟨s.accepted.length, ethertype, data⟩] } with
      accepted := s.accepted ++ [⟨e.ip, ethertype, data⟩] }
  else s

/-- One more request for the address of an entry.
mirrors netd/link/arp.c:170-173 and 202-204 -/
def probe : Arp :=
  let e := s.table i
  (s.arpRequest e.ip).setEntry i { e with probes := e.probes + 1, lastTx := now }

/-- mirrors netd/link/arp.c:138-176; a frame that is not accepted is dropped by its builder -/
def arpSendFrame (ethertype : BitVec 16) (data : List (BitVec 8))
    (memory : Bool) (now : BitVec 32) : Arp :=
  if ip = broadcastIp then s.emit [.frame broadcastMac ethertype data]
  else
    match s.arpFindOrCreate ip with
    | (s, none) => s
    | (s, some i) =>
      if (s.table i).state = .reachable then s.emit [.frame (s.table i).mac ethertype data]
      else
        let s := s.enqueue i ethertype data memory
        if (s.table i).probes = 0 then s.probe i now else s

/-- What the callback of the conflict detection does to the cache. -/
inductive Inner
  | send (ip : Ipv4Addr) (ethertype : BitVec 16) (data : List (BitVec 8)) (memory : Bool)
      (now : BitVec 32)
  | acdStart (ip : Ipv4Addr) (now : BitVec 32)
  | netif (mac : MacAddr) (ip : Ipv4Addr)

def inner : Inner → Arp
  | .send ip ethertype data memory now => s.arpSendFrame ip ethertype data memory now
  | .acdStart ip now => s.arpAcdStart ip now
  | .netif mac ip => { s with mac, ip }

/-- mirrors netd/link/arp.c:57-67 -/
def arpAcdFinish (cb : List Inner) : Arp :=
  if ¬s.acd.active then s else cb.foldl inner { s with acd.active := false }

/-- mirrors netd/link/arp.c:182-194 -/
def acdTick (cb : List Inner) : Arp :=
  if s.acd.active ∧ 0 ≤ (now - s.acd.next).toInt then
    if s.acd.probes < acdProbeNum then
      { s.arpAcdProbe s.acd.ip with
        acd := { s.acd with probes := s.acd.probes + 1, next := now + acdProbeMs } }
    else s.arpAcdFinish cb
  else s

/-- mirrors netd/link/arp.c:196-216 -/
def tickEntry (s : Arp) (i : Nat) : Arp :=
  match (s.table i).state with
  | .free => s
  | .incomplete =>
    if arpProbeMs ≤ (now - (s.table i).lastTx).toInt then
      if (s.table i).probes < arpMaxProbes then s.probe i now else s.arpFreeEntry i
    else s
  | .reachable =>
    if 0 ≤ (now - (s.table i).expire).toInt then s.arpFreeEntry i else s

/-- mirrors netd/link/arp.c:178-217 -/
def arpTick (cb : List Inner) : Arp :=
  slots.foldl (tickEntry now) (s.acdTick now cb)

inductive ArpErr
  | malformed
  deriving DecidableEq

/-- Another host has the address that is tested. mirrors netd/link/arp.c:233-244 -/
def conflict (p : ArpPacket) (cb : List Inner) : Arp :=
  if s.acd.active ∧ p.sha ≠ s.mac ∧ (p.spa = s.acd.ip ∨ p.spa = 0 ∧ p.tpa = s.acd.ip) then
    s.arpAcdFinish cb
  else s

/-- An answer to a request for our address. mirrors netd/link/arp.c:255-269 -/
def reply (our : Ipv4Addr) (p : ArpPacket) : Arp :=
  s.emit [.packet p.sha (s.ask 2 our p.sha p.spa)]

/-- `allow` is what the limit on answers says. mirrors netd/link/arp.c:219-279 -/
def arpRx (len : Nat) (p : ArpPacket) (allow : Bool) (now : BitVec 32)
    (cb : List Inner) : Arp × Except ArpErr Unit :=
  if len < 28 then (s, .error .malformed)
  else if p.htype ≠ 1 ∨ p.ptype ≠ 0x0800 ∨ p.hlen ≠ 6 ∨ p.plen ≠ 4 then (s, .error .malformed)
  else
    let our := s.ip
    let s := (s.conflict p cb).arpLearn p.spa p.sha now
    (if p.oper = 1 ∧ p.tpa = our ∧ allow then s.reply our p else s, .ok ())

/-- What reaches the cache. -/
inductive Call
  | send (ip : Ipv4Addr) (ethertype : BitVec 16) (data : List (BitVec 8)) (memory : Bool)
      (now : BitVec 32)
  | rx (len : Nat) (p : ArpPacket) (allow : Bool) (now : BitVec 32) (cb : List Inner)
  | tick (now : BitVec 32) (cb : List Inner)
  | acdStart (ip : Ipv4Addr) (now : BitVec 32)
  | netif (mac : MacAddr) (ip : Ipv4Addr)

def step : Call → Arp
  | .send ip ethertype data memory now => s.arpSendFrame ip ethertype data memory now
  | .rx len p allow now cb => (s.arpRx len p allow now cb).1
  | .tick now cb => s.arpTick now cb
  | .acdStart ip now => s.arpAcdStart ip now
  | .netif mac ip => { s with mac, ip }

/-- mirrors netd/link/arp.c:24-28 -/
def arpInit (mac : MacAddr) (ip : Ipv4Addr) : Arp := ⟨mac, ip, fun _ => {}, {}, [], [], [], []⟩

end Arp

def arpSystem : LTS Arp Arp.Call :=
  LTS.ofFun (fun s => ∃ mac ip, s = Arp.arpInit mac ip) fun s l => some (s.step l)

end Zuzu.L5.Link
