import Zuzu.L5Net.Ports
import Zuzu.L5Net.TcpIn

/-!
# The tables of netd (`netd/transport/socket.c`, `tcp.c`, `tcp_pcb.c`, `tcp_in.c`)

All control blocks, sockets and ports of the network service together: how a packet finds
its block, how listeners make new blocks, how blocks and sockets refer to each other (`ctx`
one way, `pcb` and `accept_q` the other way) and who takes and gives back ports. What
an entry point does to the block it works on is `Op.exec` of the connection model;
`Netd.exec` adds what its callbacks do to the sockets and what a release gives back.

A socket is named by the number of its allocation, so a freed socket is never taken for a
newer one. `stale` remembers that an entry point ran on a block whose callbacks would
find a freed socket; they do nothing then, while the source uses memory that is free. So a
result about all runs speaks of the source along those in which `stale` stays false. What comes
from outside (frames, memory, the application's reads and writes) is the stream `envs`, one
entry for each call.
The shared memory of a socket is left out, and so is `peer_closed`, which only feeds it.
Paths are relative to `user/services/`.
-/
namespace Zuzu.L5
open Zuzu.Core

/-- mirrors netd/transport/udp.h:16 and netd/transport/socket.h:9 -/
def udpMaxTable : Nat := 64
def sockAcceptMax : Nat := 16

inductive SockKind
  | udp | tcp
  deriving DecidableEq, Repr

/-- Error codes of the socket calls. `io` is what the frame layer returned. -/
inductive SockErr
  | noEnt | busy | noMem | badType | badArg | noSys | notConn | duplicate | bufEmpty | noPerm | io
  deriving DecidableEq, Repr

/-- The number of an allocation of a socket. -/
abbrev SockId := Nat

/-- mirrors netd/transport/socket.h:11-28; `pcb` is -1 in the source where it is `none` -/
structure Socket where
  id : Nat
  session : Nat
  kind : SockKind
  pcb : Option Nat := none
  listener : Bool := false
  acceptQ : List Nat := []
  port : Nat := 0
  deriving DecidableEq, Repr

/-- A new connection goes into the queue of its listener, if there is room.
mirrors netd/transport/socket.c:273-275 -/
def Socket.enqueue (s : Socket) (i : Nat) : Socket :=
  if s.listener ∧ s.pcb ≠ some i ∧ s.acceptQ.length < sockAcceptMax then
    { s with acceptQ := s.acceptQ ++ [i] }
  else s

/-- A connection is over. mirrors netd/transport/socket.c:315-327 -/
def Socket.forget (s : Socket) (i : Nat) : Socket :=
  if s.listener ∧ s.pcb ≠ some i then { s with acceptQ := s.acceptQ.erase i }
  else { s with pcb := none }

/-- A control block and its `ctx`. -/
structure Slot where
  conn : Conn
  ctx : Option SockId

structure Netd where
  ip : Nat                       -- `netif.ip`
  bound : Bool                   -- `DhcpIsBound()`
  slots : Nat → Slot             -- `tcp_pcbs`
  socks : SockId → Option Socket
  made : SockId                  -- the sockets allocated so far
  nextId : Nat                   -- `g_next_id`
  ports : Ports
  udp : List Nat                 -- the ports in `udp_table`
  stale : Bool
  envs : Stream' Env

variable (n : Netd) (o : SockId) (s : Socket) (i : Nat)

namespace Netd

def pcb : Pcb := (n.slots i).conn.pcb

def ctx : Option SockId := (n.slots i).ctx

/-- The socket that the callbacks of a block find.
mirrors netd/transport/socket.c:18 -/
def sockOf : Option Socket := (n.ctx i).bind n.socks

def setSlot (s : Slot) : Netd :=
  { n with slots := Function.update n.slots i s }

/-- mirrors netd/transport/tcp.c:103 -/
def tcpSetCtx (ctx : Option SockId) : Netd :=
  n.setSlot i ⟨(n.slots i).conn, ctx⟩

def setSock (s : Option Socket) : Netd :=
  { n with socks := Function.update n.socks o s }

/-- The socket, if it is there, after a change. -/
def modSock (f : Socket → Socket) : Netd :=
  n.setSock o ((n.socks o).map f)

/-! ## Callbacks -/

/-- mirrors netd/transport/socket.c:268-285; the new connection is closed by `Env.onEstablished`
if the queue is full -/
def sockOnEstablished : Netd :=
  match n.ctx i with
  | none => n
  | some o => n.modSock o (·.enqueue i)

/-- mirrors netd/transport/socket.c:310-331 -/
def sockOnClosed : Netd :=
  match n.ctx i with
  | none => n
  | some o => n.modSock o (·.forget i)

/-- A block of the listener takes over its callbacks and its `ctx` when the handshake ends.
mirrors netd/transport/tcp_in.c:453-456 -/
def adopts (p : Pcb) : Bool := p.state = .synRcvd ∧ p.parent ≠ 0

/-- The `ctx` that the callback at the end of a handshake finds. -/
def openCtx : Option SockId :=
  if adopts (n.pcb i) then n.ctx ((n.pcb i).parent - 1) else n.ctx i

/-- What comes from outside while a block is worked on. Reads and writes of a callback that
finds the socket of another block are calls on that block, and steps of their own.
mirrors netd/transport/socket.c:273-280 and 287-308 -/
def envFor : Env :=
  let e := n.envs.head
  let own : Bool := match n.sockOf i with
    | some s => ¬s.listener ∧ s.pcb = some i
    | none => false
  let full : Bool := match (n.openCtx i).bind n.socks with
    | some s => s.listener ∧ s.pcb ≠ some i ∧ sockAcceptMax ≤ s.acceptQ.length
    | none => false
  { e with
    onEstablished := full
    onData := if own then e.onData else []
    onClose := if own then e.onClose else []
    onWritable := if own then e.onWritable else []
    parentCb := (n.pcb ((n.pcb i).parent - 1)).cb }

/-- The handshake of the block ends with this call. -/
def opensBy : Op → Bool
  | .rx seg => (n.pcb i).opens (n.envFor i) seg
  | _ => false

/-- Whether the callbacks of the block find a freed socket. -/
def dangles : Bool :=
  match n.ctx i with
  | some o => (n.socks o).isNone
  | none => false

/-- A block is worked on, before its callbacks change the sockets. -/
def work (op : Op) : Netd :=
  let env := n.envFor i
  let c := op.exec env ⟨n.pcb i, (n.slots i).conn.log, env.tx⟩
  let ctx := if n.opensBy i op then n.openCtx i else n.ctx i
  let m := { n.setSlot i ⟨⟨c.pcb, c.log⟩, ctx⟩ with envs := n.envs.tail }
  { m with stale := n.stale || (m.dangles i && ((n.pcb i).cb || n.opensBy i op)) }

/-- The same with the callback at the end of a handshake. -/
def notified (op : Op) : Netd :=
  let m := n.work i op
  if n.opensBy i op ∧ (m.pcb i).cb then m.sockOnEstablished i else m

/-- What a release gives back; `cb` and `localPort` are those of the block when it is released.
mirrors netd/transport/tcp_pcb.c:93-102 -/
def released (cb : Bool) (localPort : Nat) : Netd :=
  let n := if cb then n.sockOnClosed i else n
  { n with ports := n.ports.release localPort }

/-- An entry point of the connection model runs on block `i`. -/
def exec (op : Op) : Netd :=
  let m := n.notified i op
  if (n.pcb i).active ∧ ¬(m.pcb i).active then m.released i (n.pcb i).cb (n.pcb i).localPort
  else m

/-! ## Blocks -/

/-- The slots in the order in which they are searched. -/
def slotList : List Nat := List.range tcpMaxPcb

/-- mirrors netd/transport/tcp_pcb.c:37-50 -/
def tcpPcbAlloc : Option Nat := slotList.find? fun i => !(n.pcb i).active

/-- mirrors netd/transport/tcp_pcb.c:70-80 -/
def tcpPcbFind (localIp localPort remoteIp remotePort : Nat) : Option Nat :=
  slotList.find? fun i =>
    (n.pcb i).localIp = localIp ∧ (n.pcb i).localPort = localPort ∧
      (n.pcb i).remoteIp = remoteIp ∧ (n.pcb i).remotePort = remotePort ∧ (n.pcb i).active

/-- mirrors netd/transport/tcp_pcb.c:82-91 -/
def tcpPcbFindListener (localIp localPort : Nat) : Option Nat :=
  slotList.find? fun i =>
    (n.pcb i).active ∧ (n.pcb i).state = .listening ∧ (n.pcb i).localIp = localIp ∧
      (n.pcb i).localPort = localPort

/-- A half-open block of the listener in slot `l`. mirrors netd/transport/tcp_in.c:407-408 -/
def isChild (l i : Nat) : Bool :=
  (n.pcb i).active ∧ (n.pcb i).state = .synRcvd ∧ (n.pcb i).parent = l + 1

/-- mirrors netd/transport/tcp.c:11-46. The flag is the slot. -/
def tcpConnect (remoteIp remotePort : Nat) (isn : Seq) : Netd × Except SockErr Nat :=
  if ¬n.bound then (n, .error .notConn)
  else
    match n.tcpPcbAlloc with
    | none => (n, .error .noMem)
    | some i =>
      let (ports, localPort) := n.ports.alloc
      let p := { Pcb.fresh with remoteIp, remotePort, localIp := n.ip, localPort }
      let n := { n with ports }.setSlot i ⟨⟨p, []⟩, none⟩
      if localPort = 0 then (n.exec i .drop, .error .noMem)
      else
        let n := n.exec i (.connect isn)
        if (n.pcb i).active then (n.tcpSetCtx i (some o), .ok i) else (n, .error .io)

/-- mirrors netd/transport/tcp.c:47-61 -/
def tcpListen (port : Nat) (backlog : Int) : Netd × Except SockErr Nat :=
  match n.tcpPcbAlloc with
  | none => (n, .error .noMem)
  | some i =>
    let p := { Pcb.fresh with
      localIp := n.ip
      localPort := port
      state := .listening
      backlog := if backlog > 0 then backlog.toNat else tcpListenBacklog
      cb := true }
    (n.setSlot i ⟨⟨p, []⟩, some o⟩, .ok i)

/-- mirrors netd/transport/tcp.c:63-93 -/
def tcpClose : Netd :=
  if (n.pcb i).state = .listening then
    let n := slotList.foldl (fun n j => if n.isChild i j then n.exec j .drop else n) n
    n.exec i .drop
  else n.exec i .close

/-! ## Packets -/

/-- A received segment with its addresses. -/
structure Packet where
  srcIp : Nat
  srcPort : Nat
  dstPort : Nat
  seg : Segment

/-- mirrors netd/transport/tcp_in.c:400-442; `isn` is `NetRandU32()` -/
def onListening (l : Nat) (k : Packet) (isn : Seq) : Netd :=
  if ¬(k.seg.flags.syn ∧ ¬k.seg.flags.ack) then n
  else if (n.pcb l).backlog ≤ slotList.countP (n.isChild l) then n
  else
    match n.tcpPcbAlloc with
    | none => n
    | some i =>
      let p := { Pcb.fresh with
        localIp := n.ip
        localPort := (n.pcb l).localPort
        remoteIp := k.srcIp
        remotePort := k.srcPort }
      (n.setSlot i ⟨⟨p, []⟩, none⟩).exec i (.accept l k.seg isn)

/-- mirrors netd/transport/tcp_in.c:470-473 -/
def target (k : Packet) : Option Nat :=
  match n.tcpPcbFind n.ip k.dstPort k.srcIp k.srcPort with
  | some i => some i
  | none =>
    if k.seg.flags.syn ∧ ¬k.seg.flags.ack then n.tcpPcbFindListener n.ip k.dstPort else none

/-- A segment without a block is answered by a RST, which changes nothing here.
mirrors netd/transport/tcp_in.c:468-553 -/
def tcpDispatch (k : Packet) (isn : Seq) : Netd :=
  match n.target k with
  | none => n
  | some i =>
    let m := n.exec i (.rx k.seg)
    if (n.pcb i).state = .listening ∧ ¬k.seg.flags.rst then m.onListening i k isn else m

/-! ## Sockets -/

/-- mirrors netd/transport/udp.c:43-63 -/
def udpBind (port : Nat) : Netd × Option SockErr :=
  if port = 0 then (n, some .noPerm)
  else if port ∈ n.udp then (n, some .duplicate)
  else if udpMaxTable ≤ n.udp.length then (n, some .noMem)
  else ({ n with udp := n.udp ++ [port] }, none)

/-- mirrors netd/transport/udp.c:65-72 -/
def udpUnbind (port : Nat) : Netd := { n with udp := n.udp.filter (· ≠ port) }

/-- The id of the next socket. mirrors netd/transport/socket.c:93-95 -/
def newId : Nat := if n.nextId = 0 then 1 else n.nextId

/-- mirrors netd/transport/socket.c:55-101; `kind` is `none` if it is unknown, and `mem` what the
session and the mapping of the memory say -/
def socketOpen (session : Nat) (kind : Option SockKind) (mem : Option SockErr) :
    Netd × Except SockErr Nat :=
  match kind, mem with
  | none, _ => (n, .error .noSys)
  | some _, some e => (n, .error e)
  | some kind, none =>
    ({ n.setSock n.made (some { id := n.newId, session, kind }) with
      made := n.made + 1
      nextId := (n.newId + 1) % 2 ^ 32 }, .ok n.newId)

/-- The oldest socket with the id and the session.
mirrors netd/transport/socket.c:103-113 -/
def socketFor (id session : Nat) : Option SockId :=
  (List.range n.made).find? fun o =>
    match n.socks o with
    | some s => s.id = id ∧ s.session = session
    | none => false

/-- mirrors netd/transport/socket.c:115-143 -/
def socketBind (port : Nat) : Netd × Option SockErr :=
  if s.port ≠ 0 then (n, some .busy)
  else if s.kind ≠ .udp then (n, some .badType)
  else
    let taken : Except SockErr (Ports × Nat) :=
      if port = 0 then
        if n.ports.alloc.2 = 0 then .error .noMem else .ok n.ports.alloc
      else match n.ports.reserve port with
        | none => .error .duplicate
        | some ports => .ok (ports, port)
    match taken with
    -- the cursor of `PortAlloc` has moved although it found nothing
    | .error e => (if port = 0 then { n with ports := n.ports.alloc.1 } else n, some e)
    | .ok (ports, port) =>
      match { n with ports }.udpBind port with
      | (n, some e) => ({ n with ports := n.ports.release port }, some e)
      | (n, none) => (n.modSock o fun s => { s with port }, none)

/-- mirrors netd/transport/socket.c:389-403 -/
def socketConnect (ip port : Nat) (isn : Seq) : Netd × Option SockErr :=
  if s.kind ≠ .tcp then (n, some .badType)
  else if s.pcb ≠ none ∨ s.listener then (n, some .busy)
  else
    match n.tcpConnect o ip port isn with
    | (n, .error e) => (n, some e)
    | (n, .ok i) => (n.modSock o fun s => { s with pcb := some i }, none)

/-- mirrors netd/transport/socket.c:405-424 -/
def socketListen (port : Nat) (backlog : Int) : Netd × Option SockErr :=
  if s.kind ≠ .tcp then (n, some .badType)
  else if s.pcb ≠ none ∨ s.listener then (n, some .busy)
  else if port = 0 then (n, some .badArg)
  else if n.tcpPcbFindListener n.ip port ≠ none then (n, some .duplicate)
  else
    match n.tcpListen o port backlog with
    | (n, .error e) => (n, some e)
    | (n, .ok i) => (n.modSock o fun s => { s with pcb := some i, listener := true }, none)

/-- The reads of `SocketTcpRx` on the block of a socket.
mirrors netd/transport/socket.c:199-222 -/
def socketTcpRx (sizes : List Nat) : Netd :=
  match s.pcb, s.listener with
  | some i, false => sizes.foldl (fun n sz => n.exec i (.recv (min sz 512))) n
  | _, _ => n

/-- The writes of `SocketTcpTx`. mirrors netd/transport/socket.c:233-260 -/
def socketTcpTx (chunks : List (List Byte)) : Netd :=
  match s.pcb, s.listener with
  | some i, false => chunks.foldl (fun n data => n.exec i (.send (data.take 512))) n
  | _, _ => n

/-- The new socket `ns` takes over the connection at the head of the queue.
mirrors netd/transport/socket.c:436-453 -/
def takeOver (l ns : SockId) (i : Nat) (sizes : List Nat) : Netd :=
  let n := n.modSock l fun s => { s with acceptQ := s.acceptQ.tail }
  let n := n.modSock ns fun s => { s with pcb := some i }
  let n := n.tcpSetCtx i (some ns)
  match n.socks ns with
  | some s => n.socketTcpRx s sizes
  | none => n

/-- mirrors netd/transport/socket.c:426-455 -/
def socketAccept (l : SockId) (s : Socket) (session : Nat) (mem : Option SockErr)
    (sizes : List Nat) : Netd × Except SockErr Nat :=
  if ¬s.listener then (n, .error .badArg)
  else
    match s.acceptQ with
    | [] => (n, .error .bufEmpty)
    | i :: _ =>
      match n.socketOpen session (some .tcp) mem with
      | (n, .error e) => (n, .error e)
      | (n, .ok id) =>
        match n.socketFor id session with
        | some ns => (n.takeOver l ns i sizes, .ok id)
        | none => (n, .ok id)

/-- mirrors netd/transport/socket.c:149-152 -/
def closeQueue (queue : List Nat) : Netd :=
  queue.foldl (fun n i => (n.tcpSetCtx i none).tcpClose i) n

/-- mirrors netd/transport/socket.c:157-161 -/
def closePcb : Option Nat → Netd
  | some i => (n.tcpSetCtx i none).tcpClose i
  | none => n

/-- mirrors netd/transport/socket.c:145-176 -/
def socketClose (chunks : List (List Byte)) : Netd :=
  let n :=
    if s.kind = .tcp then
      if s.listener then n.closeQueue s.acceptQ else n.socketTcpTx s chunks
    else n
  let n := if s.kind = .tcp then n.closePcb s.pcb else n
  let n :=
    if s.port ≠ 0 then
      let n := n.udpUnbind s.port
      { n with ports := n.ports.release s.port }
    else n
  n.setSock o none

/-- mirrors netd/transport/socket.c:178-185 -/
def socketCloseAll (session : Nat) (chunks : SockId → List (List Byte)) : Netd :=
  (List.range n.made).foldl (fun n o =>
    match n.socks o with
    | some s => if s.session = session then n.socketClose o s (chunks o) else n
    | none => n) n

/-! ## The system -/

inductive TimerKind
  | rto | persist | timeWait | finWait2

def TimerKind.op : TimerKind → Op
  | .rto => .rto
  | .persist => .persist
  | .timeWait => .timeWait
  | .finWait2 => .finWait2

/-- What reaches netd: a new address, a packet, a timer, the requests of the clients
(`netd/transport/session.c`) and the pumping of their sockets. -/
inductive Call
  | netif (ip : Nat) (bound : Bool)
  | packet (k : Packet) (isn : Seq)
  | timer (i : Nat) (t : TimerKind)
  | sockOpen (session : Nat) (kind : Option SockKind) (mem : Option SockErr)
  | sockBind (session id port : Nat)
  | sockConnect (session id ip port : Nat) (isn : Seq)
  | sockListen (session id port : Nat) (backlog : Int)
  | sockAccept (session id : Nat) (mem : Option SockErr) (sizes : List Nat)
  | sockClose (session id : Nat) (chunks : List (List Byte))
  | closeAll (session : Nat) (chunks : SockId → List (List Byte))
  | pump (o : SockId) (sizes : List Nat) (chunks : List (List Byte))

/-- A call with the socket it names, if there is one. -/
def withSock (session id : Nat) (f : SockId → Socket → Netd) : Netd :=
  match n.socketFor id session with
  | some o => match n.socks o with
    | some s => f o s
    | none => n
  | none => n

def step : Call → Netd
  | .netif ip bound => { n with ip, bound }
  | .packet k isn => n.tcpDispatch k isn
  | .timer i t =>
    if (n.pcb i).active ∧ t.op.enabled (n.pcb i) then n.exec i t.op else n
  | .sockOpen session kind mem => (n.socketOpen session kind mem).1
  | .sockBind session id port => n.withSock session id fun o s => (n.socketBind o s port).1
  | .sockConnect session id ip port isn =>
    n.withSock session id fun o s => (n.socketConnect o s ip port isn).1
  | .sockListen session id port backlog =>
    n.withSock session id fun o s => (n.socketListen o s port backlog).1
  | .sockAccept session id mem sizes =>
    n.withSock session id fun o s => (n.socketAccept o s session mem sizes).1
  | .sockClose session id chunks =>
    n.withSock session id fun o s => n.socketClose o s chunks
  | .closeAll session chunks => n.socketCloseAll session chunks
  | .pump o sizes chunks =>
    match n.socks o with
    | some s =>
      if s.kind = .tcp then (n.socketTcpRx s sizes).socketTcpTx s chunks else n
    | none => n

/-- The DHCP client holds its port and the echo service is bound.
mirrors netd/main.c:212-224 and netd/app/dhcp.c:328-329 -/
def boot (envs : Stream' Env) : Netd where
  ip := 0
  bound := false
  slots _ := ⟨⟨{ Pcb.fresh with active := false }, []⟩, none⟩
  socks _ := none
  made := 0
  nextId := 1
  ports := (Ports.init.reserve 68).getD Ports.init
  udp := [68, 7]
  stale := false
  envs := envs

end Netd

/-- netd from its start, whatever comes from outside. -/
def netdSystem : LTS Netd Netd.Call :=
  LTS.ofFun (fun n => ∃ envs, n = Netd.boot envs) fun n l => some (n.step l)

end Zuzu.L5
