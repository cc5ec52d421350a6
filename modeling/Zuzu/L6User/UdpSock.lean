import Zuzu.L6User.Dgram

/-!
# UDP sockets

The two rings of a UDP socket with the programs on both ends. Receiving: `SocketUdpRx` in netd
(`user/services/netd/transport/socket.c:22-45`) and `SockRecvFrom` in the client
(`include/net/sockclient.c:262-302`). Sending: `SockSendTo` in the client and `SocketPumpOne`
in netd. Every load and store of the shared memory is one step, and the programs take them in
any order.

The client takes a record whose length is beyond `SOCK_DGRAM_MAX` for a broken ring and throws
everything away. `SocketUdpRx` does not look at the length, and netd is handed frames of up to
1536 bytes, so such a record can come off the wire.

**Results.** `RxInv.step`, `TxInv.step`: both readers walk from record to record.
`udp_rings_keep_datagrams`: nothing is lost, repeated or changed, as long as no received
datagram is longer than the client's limit.
-/
namespace Zuzu.L6User
open Zuzu.Core
variable {r : DRing} {got : List Byte} {cap budget : Nat} {again : Bool} {s : RxState}

/-- What a reader got: the peer and as much of the payload as was asked for. -/
structure Yield where
  cap : Nat
  ip : BitVec 32
  port : BitVec 16
  bytes : List Byte
  deriving DecidableEq

/-- What a reader got is the datagram, cut to the buffer. -/
def Yield.agrees (y : Yield) (d : Dgram) : Prop :=
  y.ip = d.ip ∧ y.port = d.port ∧ y.bytes = d.payload.take y.cap

/-! ## Receiving -/

/-- Where the client stands in `SockRecvFrom`; `head` is the value it has loaded. -/
inductive Reader
  | idle
  | called (cap : Nat)
  | header (cap : Nat) (head : BitVec 32) (got : List Byte)
  | payload (cap : Nat) (head : BitVec 32) (h : Hdr) (got : List Byte)

structure RxState where
  ring : DRing
  reader : Reader
  yields : List Yield
  malformed : Bool

/-- `again` says whether a client that finds nothing waits or gives up. -/
inductive RxAct
  | datagram (d : Dgram)
  | write
  | recvFrom (cap : Nat)
  | read (again : Bool)

namespace RxState

/-- The next step of `SockRecvFrom`. mirrors include/net/sockclient.c:268-300 -/
def read (s : RxState) (again : Bool) : Option RxState :=
  match s.reader with
  | .idle => none
  | .called cap =>
    if sockRingSize < s.ring.head - s.ring.rcur then
      some { s with ring.rcur := s.ring.head, reader := .idle, malformed := true }
    else if 8 ≤ (s.ring.head - s.ring.rcur).toNat then
      some { s with reader := .header cap s.ring.head [] }
    else some { s with reader := if again then .called cap else .idle }
  | .header cap head got =>
    if got.length < 8 then
      some { s with
        reader := .header cap head
          (got ++ [s.ring.data (ShmRing.cell sockRingSize s.ring.rcur 8 got.length)]) }
    else if sockDgramMax < (Hdr.decode got).len.toNat ∨
        (head - s.ring.rcur).toNat < recLen (Hdr.decode got).len.toNat then
      some { s with
        ring.rcur := head
        ring.tail := head
        reader := .idle
        malformed := true }
    else some { s with reader := .payload cap head (Hdr.decode got) [] }
  | .payload cap head h got =>
    if got.length < min h.len.toNat cap then
      some { s with
        reader := .payload cap head h (got ++ [s.ring.data
          (ShmRing.cell sockRingSize (s.ring.rcur + 8) (min h.len.toNat cap) got.length)]) }
    else
      some { s with
        ring.rcur := s.ring.rcur + BitVec.ofNat 32 (recLen h.len.toNat)
        ring.tail := s.ring.rcur + BitVec.ofNat 32 (recLen h.len.toNat)
        reader := .idle
        yields := s.yields ++ [⟨cap, h.peerIp, h.peerPort, got⟩] }

def step (s : RxState) : RxAct → Option RxState
  | .datagram d =>
    match s.ring.writer with
    | .idle => some { s with ring.writer := .called d }
    | _ => none
  | .write => s.ring.write.map fun r => { s with ring := r }
  | .recvFrom cap =>
    match s.reader with
    | .idle => if cap < 2 ^ 16 then some { s with reader := .called cap } else none
    | _ => none
  | .read again => s.read again

end RxState

/-! ## Sending -/

/-- Where netd stands in `SocketPumpOne`; `budget` counts the rounds of its loop. -/
inductive Pumper
  | idle
  | looping (head : BitVec 32) (budget : Nat)
  | header (head : BitVec 32) (budget : Nat) (got : List Byte)
  | payload (head : BitVec 32) (budget : Nat) (h : Hdr) (got : List Byte)
  | done

/-- `handled` has what netd made of each record: whether it went to `UdpSend` (the socket was
bound), and the record. -/
structure TxState where
  ring : DRing
  pump : Pumper
  bound : Bool
  handled : List (Bool × Yield)
  malformed : Bool

/-- `full` says that `UdpSend` returns `ERR_BUFFULL`; `closed` that the socket's state is. -/
inductive TxAct
  | sendTo (d : Dgram) (closed : Bool)
  | write
  | bind
  | pumpOne
  | pump (full : Bool)

namespace TxState

/-- mirrors user/services/netd/transport/socket.c:348-356 -/
def pumpOne (s : TxState) : TxState :=
  if s.ring.head - s.ring.rcur = 0 then s
  else if sockRingSize < s.ring.head - s.ring.rcur then
    { s with ring.rcur := s.ring.head, ring.tail := s.ring.head, malformed := true }
  else { s with pump := .looping s.ring.head 16 }

/-- The next step of the loop. mirrors user/services/netd/transport/socket.c:358-378 -/
def next (s : TxState) (full : Bool) : Option TxState :=
  match s.pump with
  | .idle => none
  | .looping head budget =>
    if 8 ≤ (head - s.ring.rcur).toNat ∧ budget ≠ 0 then
      some { s with pump := .header head (budget - 1) [] }
    else some { s with pump := .done }
  | .header head budget got =>
    if got.length < 8 then
      some { s with
        pump := .header head budget
          (got ++ [s.ring.data (ShmRing.cell sockRingSize s.ring.rcur 8 got.length)]) }
    else if sockDgramMax < (Hdr.decode got).len.toNat ∨
        (head - s.ring.rcur).toNat < recLen (Hdr.decode got).len.toNat then
      some { s with ring.rcur := head, pump := .done, malformed := true }
    else some { s with pump := .payload head budget (Hdr.decode got) [] }
  | .payload head budget h got =>
    if got.length < h.len.toNat then
      some { s with
        pump := .payload head budget h (got ++ [s.ring.data
          (ShmRing.cell sockRingSize (s.ring.rcur + 8) h.len.toNat got.length)]) }
    else if s.bound ∧ full then some { s with pump := .done }
    else
      some { s with
        ring.rcur := s.ring.rcur + BitVec.ofNat 32 (recLen h.len.toNat)
        pump := .looping head budget
        handled := s.handled ++ [(s.bound, ⟨h.len.toNat, h.peerIp, h.peerPort, got⟩)] }
  | .done => some { s with ring.tail := s.ring.rcur, pump := .idle }

def step (s : TxState) : TxAct → Option TxState
  | .sendTo d closed =>
    match s.ring.writer with
    | .idle =>
      if sockDgramMax < d.payload.length ∨ closed then some s
      else some { s with ring.writer := .called d }
    | _ => none
  | .write => s.ring.write.map fun r => { s with ring := r }
  | .bind => some { s with bound := true }
  | .pumpOne =>
    match s.pump with
    | .idle => some s.pumpOne
    | _ => none
  | .pump full => s.next full

end TxState

/-! ## The socket -/

structure UdpState where
  rx : RxState
  tx : TxState

inductive UdpAct
  | rx (a : RxAct)
  | tx (a : TxAct)

def UdpState.step (s : UdpState) : UdpAct → Option UdpState
  | .rx a => (s.rx.step a).map fun x => { s with rx := x }
  | .tx a => (s.tx.step a).map fun x => { s with tx := x }

/-- A socket from `SocketOpen` on, whatever its memory held. -/
def udpSystem : LTS UdpState UdpAct :=
  .ofFun (fun s => ∃ d d', s = ⟨⟨.init d, .idle, [], false⟩, ⟨.init d', .idle, false, [], false⟩⟩)
    UdpState.step

/-- No received datagram is longer than the client's limit. -/
def UdpState.Fits (_ : UdpState) : UdpAct → Prop
  | .rx (.datagram d) => d.payload.length ≤ sockDgramMax
  | _ => True

instance (s : UdpState) (a : UdpAct) : Decidable (s.Fits a) := by
  cases a with
  | rx a => cases a <;> unfold UdpState.Fits <;> infer_instance
  | tx a => unfold UdpState.Fits; infer_instance

/-! ## Records read so far -/

/-- What a reader made of the first records. -/
def Served {α : Type} (R : α → Dgram → Prop) (ys : List α) (r : DRing) : Prop :=
  List.Forall₂ (fun y rec => R y rec.dgram) ys (r.accepted.take ys.length)

namespace Served
variable {α : Type} {R : α → Dgram → Prop} {ys : List α} {r r' : DRing}

theorem grows (h : Served R ys r) (hg : DRing.Grows r r') (hle : ys.length ≤ r.accepted.length) :
    Served R ys r' := by
  obtain ⟨more, hm⟩ := hg.more
  unfold Served
  rw [hm, List.take_append_of_le_length hle]
  exact h

theorem snoc (h : Served R ys r) (hc : ys.length < r.accepted.length) {y : α}
    (hy : R y r.accepted[ys.length].dgram) : Served R (ys ++ [y]) r := by
  unfold Served
  rw [List.length_append, List.length_singleton, List.take_succ_eq_append_getElem hc]
  exact List.rel_append h (.cons hy .nil)

end Served

/-- A payload that was read up to the buffer's size is the datagram's, cut to it. -/
theorem DRing.ReadPay.eq_take {c : Nat}
    (h : DRing.ReadPay r c got) (hc : c < r.accepted.length)
    (hlen : got.length = min r.accepted[c].dgram.payload.length cap) :
    got = r.accepted[c].dgram.payload.take cap := by
  obtain ⟨_, hp⟩ := h
  have htake := List.prefix_iff_eq_take.mp hp
  rw [hlen, Nat.min_comm, ← List.take_take, List.take_length] at htake
  exact htake

/-! ## A reader in a record -/

/-- Where a reader stands: between two records, at a value of `head`, or in the header or the
payload of a record, of which it wants `cap` bytes. -/
inductive Phase
  | away
  | loaded (head : BitVec 32)
  | header (head : BitVec 32) (got : List Byte)
  | payload (cap : Nat) (head : BitVec 32) (h : Hdr) (got : List Byte)

namespace Phase

/-- What the reader has is of record `c`. -/
def Ok (r : DRing) (c : Nat) : Phase → Prop
  | away => True
  | loaded head => DRing.Snap r c head
  | header head got => DRing.AtRec r c head ∧ DRing.ReadHdr r c got
  | payload cap head h got =>
    DRing.AtRec r c head ∧ (∃ hc : c < r.accepted.length, h = r.accepted[c].dgram.hdr) ∧
      DRing.ReadPay r c got ∧ got.length ≤ min h.len.toNat cap

/-- How much of the record is still to come. -/
def rank : Phase → Nat
  | away | loaded _ => 2 ^ 16 + 9
  | header _ got => 2 ^ 16 + (8 - got.length)
  | payload _ _ h got => h.len.toNat - got.length

variable {p : Phase} {c t : Nat} {head : BitVec 32} {h : Hdr}

theorem Ok.grows {r' : DRing} (hp : p.Ok r c) (hg : DRing.Grows r r') : p.Ok r' c := by
  cases p with
  | away => trivial
  | loaded head => exact DRing.Snap.grows hp hg
  | header head got => exact ⟨hp.1.grows hg, hp.2.grows hg⟩
  | payload cap head h got =>
    obtain ⟨hat, ⟨hc, hh⟩, hr, hle⟩ := hp
    obtain ⟨hc', he⟩ := hg.getElem hc
    exact ⟨hat.grows hg, ⟨hc', he ▸ hh⟩, hr.grows hg, hle⟩

/-- A reader that sees eight bytes goes into the next record. -/
theorem enter (hb : r.Books t c) (hs : DRing.Snap r c head) (hsome : 8 ≤ (head - r.rcur).toNat) :
    (header head []).Ok r c := by
  have hat : DRing.AtRec r c head := ⟨hs, hsome⟩
  obtain ⟨hc, -⟩ := hb.atRec hat
  exact ⟨hat, hc, List.nil_prefix⟩

/-- The reader takes the next byte of the header, or finds it in order and goes on to the
payload. -/
theorem Ok.header (hb : r.Books t c) (hshort : r.Short) (hp : (Phase.header head got).Ok r c) :
    (got.length < 8 → (Phase.header head
        (got ++ [r.data (ShmRing.cell sockRingSize r.rcur 8 got.length)])).Ok r c) ∧
    (¬got.length < 8 → ¬(sockDgramMax < (Hdr.decode got).len.toNat ∨
        (head - r.rcur).toNat < recLen (Hdr.decode got).len.toNat) ∧
      ∀ cap, (Phase.payload cap head (Hdr.decode got) []).Ok r c) := by
  obtain ⟨hat, hhdr⟩ := hp
  refine ⟨fun hlt => ⟨hat, hb.readHdr hhdr hlt⟩, fun hlen => ?_⟩
  obtain ⟨hc, hdec⟩ := hhdr.decode hlen
  obtain ⟨hl, hmax⟩ := hshort.len hc
  obtain ⟨_, hrec⟩ := hb.atRec hat
  refine ⟨?_, fun cap => ⟨hat, ⟨hc, hdec⟩, ⟨hc, List.nil_prefix⟩, Nat.zero_le _⟩⟩
  rw [hdec, hl]
  omega

/-- The reader takes the next byte of the payload, or has what it wants of the datagram and can
go on to the next record. -/
theorem Ok.payload (hb : r.Books t c) (hshort : r.Short)
    (hp : (Phase.payload cap head h got).Ok r c) :
    (got.length < min h.len.toNat cap → (Phase.payload cap head h (got ++ [r.data
      (ShmRing.cell sockRingSize (r.rcur + 8) (min h.len.toNat cap) got.length)])).Ok r c) ∧
    (¬got.length < min h.len.toNat cap → ∃ hc : c < r.accepted.length,
      DRing.Books { r with rcur := r.rcur + BitVec.ofNat 32 (recLen h.len.toNat) } t (c + 1) ∧
      Yield.agrees ⟨cap, h.peerIp, h.peerPort, got⟩ r.accepted[c].dgram) := by
  obtain ⟨hat, ⟨hc, rfl⟩, hr, hle⟩ := hp
  obtain ⟨hl, -⟩ := hshort.len hc
  rw [hl] at hle ⊢
  refine ⟨fun hlt => ⟨hat, ⟨hc, rfl⟩, ?_, ?_⟩, fun hlen => ⟨hc, hb.advance hc, rfl, rfl, ?_⟩⟩
  · exact hb.readPay hr (fun _ => Nat.min_le_left ..) hlt
  · rw [List.length_append, hl]
    exact hlt
  · have hwant := Nat.le_antisymm hle (Nat.not_lt.mp hlen)
    exact hr.eq_take hc hwant

end Phase

/-! ## The client reads -/

def Reader.phase : Reader → Phase
  | .idle | .called _ => .away
  | .header _ head got => .header head got
  | .payload cap head h got => .payload cap head h got

structure RxInv (s : RxState) : Prop where
  books : s.ring.Books s.yields.length s.yields.length
  short : s.ring.Short
  reading : s.reader.phase.Ok s.ring s.yields.length
  served : Served Yield.agrees s.yields s.ring
  fine : s.malformed = false

namespace RxInv
variable {s s' : RxState}

theorem init (data : Nat → Byte) : RxInv ⟨.init data, .idle, [], false⟩ where
  books := .init data
  short := ⟨nofun, trivial⟩
  reading := trivial
  served := .nil
  fine := rfl

theorem write (h : RxInv s) (hs : s.ring.write = some r) :
    RxInv { s with ring := r } :=
  have ⟨hg, hshort⟩ := DRing.write_keeps hs
  ⟨h.books.write hs, hshort h.short, h.reading.grows hg, h.served.grows hg h.books.le', h.fine⟩

theorem goes (h : RxInv s) {rd : Reader} (hp : rd.phase.Ok s.ring s.yields.length) :
    RxInv { s with reader := rd } :=
  ⟨h.books, h.short, hp, h.served, h.fine⟩

/-- The next step of `SockRecvFrom`. A client that has a record before it comes nearer to it. -/
theorem read (h : RxInv s) (hr : s.reader ≠ .idle) (again : Bool) :
    ∃ s', s.read again = some s' ∧ RxInv s' ∧ (s.yields.length < s.ring.accepted.length →
      s'.yields.length = s.yields.length + 1 ∨
      s'.yields = s.yields ∧ s'.ring = s.ring ∧ s'.reader ≠ .idle ∧
        s'.reader.phase.rank < s.reader.phase.rank) := by
  have hrd := h.reading
  unfold RxState.read
  cases hw : s.reader with
  | idle => exact absurd hw hr
  | called cap =>
    obtain ⟨hle, -⟩ := h.books.avail h.books.snap
    dsimp only
    rw [if_neg (by rw [BitVec.lt_def]; exact Nat.not_lt.mpr hle)]
    split
    · exact ⟨_, rfl, h.goes (Phase.enter h.books h.books.snap ‹_›), fun _ =>
        .inr ⟨rfl, rfl, nofun, Nat.lt_succ_self (2 ^ 16 + 8)⟩⟩
    · exact ⟨_, rfl, h.goes (by cases again <;> trivial), fun hc =>
        absurd (h.books.next hc).2 ‹_›⟩
  | header cap head got =>
    rw [hw] at hrd
    obtain ⟨hmore, hall⟩ := Phase.Ok.header h.books h.short hrd
    dsimp only
    split
    · refine ⟨_, rfl, h.goes (hmore ‹_›), fun _ => .inr ⟨rfl, rfl, nofun, ?_⟩⟩
      simp only [Reader.phase, Phase.rank, List.length_append, List.length_singleton]
      omega
    · obtain ⟨hgood, hpay⟩ := hall ‹_›
      rw [if_neg hgood]
      refine ⟨_, rfl, h.goes (hpay cap), fun _ => .inr ⟨rfl, rfl, nofun, ?_⟩⟩
      simp only [Reader.phase, Phase.rank, List.length_nil]
      omega
  | payload cap head hd got =>
    rw [hw] at hrd
    obtain ⟨hmore, hall⟩ := Phase.Ok.payload h.books h.short hrd
    dsimp only
    split
    · refine ⟨_, rfl, h.goes (hmore ‹_›), fun _ => .inr ⟨rfl, rfl, nofun, ?_⟩⟩
      simp only [Reader.phase, Phase.rank, List.length_append, List.length_singleton]
      omega
    · obtain ⟨hc, hadv, hy⟩ := hall ‹_›
      refine ⟨_, rfl, ⟨?_, h.short, trivial, h.served.snoc hc hy, h.fine⟩, fun _ =>
        .inl List.length_append⟩
      rw [List.length_append]
      exact hadv.release

theorem step (h : RxInv s) {a : RxAct}
    (hfit : ∀ d, a = .datagram d → d.payload.length ≤ sockDgramMax)
    (hs : s.step a = some s') : RxInv s' := by
  cases a with
  | datagram d =>
    simp only [RxState.step] at hs
    split at hs
    · cases hs
      exact ⟨h.books.call d, ⟨h.short.1, hfit d rfl⟩, h.reading.grows (.of_eq rfl rfl),
        h.served, h.fine⟩
    · cases hs
  | write =>
    obtain ⟨r, hr, rfl⟩ := Option.map_eq_some_iff.mp hs
    exact h.write hr
  | recvFrom cap =>
    simp only [RxState.step] at hs
    split at hs
    · split at hs
      · cases hs
        exact h.goes trivial
      · cases hs
    · cases hs
  | read again =>
    have hr : s.reader ≠ .idle := by
      intro hr
      simp only [RxState.step, RxState.read, hr] at hs
      cases hs
    obtain ⟨m, hm, hi, -⟩ := h.read hr again
    cases hm.symm.trans hs
    exact hi

/-- A client in `SockRecvFrom` gets the next record that is there. -/
theorem gets (h : RxInv s) (hr : s.reader ≠ .idle)
    (hc : s.yields.length < s.ring.accepted.length) :
    ∃ n s', LTS.steps (·.read false) n s = some s' ∧
      s'.yields.length = s.yields.length + 1 := by
  refine LTS.steps_reach (f := fun x : RxState => x.read false)
    (I := fun x => RxInv x ∧ x.yields = s.yields ∧ x.ring = s.ring ∧ x.reader ≠ .idle)
    (fun x => x.reader.phase.rank) ?_ ⟨h, rfl, rfl, hr⟩
  intro x ⟨hx, hy, hring, hne⟩
  obtain ⟨x', hs, hi, hnear⟩ := hx.read hne false
  rw [hy, hring] at hnear
  obtain hone | ⟨h1, h2, h3, hlt⟩ := hnear hc
  · exact ⟨x', hs, .inl hone⟩
  · exact ⟨x', hs, .inr ⟨⟨hi, h1, h2, h3⟩, hlt⟩⟩

end RxInv

/-! ## netd pumps -/

def Pumper.phase : Pumper → Phase
  | .idle | .done => .away
  | .looping head _ => .loaded head
  | .header head _ got => .header head got
  | .payload head _ h got => .payload h.len.toNat head h got

/-- netd is on its way to the next record. -/
def TxState.Busy (s : TxState) : Prop :=
  match s.pump with
  | .idle | .done => False
  | .looping head budget => 8 ≤ (head - s.ring.rcur).toNat ∧ budget ≠ 0
  | .header _ _ _ | .payload _ _ _ _ => True

structure TxInv (s : TxState) : Prop where
  books : ∃ t, s.ring.Books t s.handled.length
  short : s.ring.Short
  pumping : s.pump.phase.Ok s.ring s.handled.length
  served : Served (fun p d => p.2.agrees d) s.handled s.ring
  fine : s.malformed = false

namespace TxInv
variable {s s' : TxState}

theorem init (data : Nat → Byte) : TxInv ⟨.init data, .idle, false, [], false⟩ where
  books := ⟨0, .init data⟩
  short := ⟨nofun, trivial⟩
  pumping := trivial
  served := .nil
  fine := rfl

theorem write (h : TxInv s) (hs : s.ring.write = some r) :
    TxInv { s with ring := r } := by
  obtain ⟨hg, hshort⟩ := DRing.write_keeps hs
  obtain ⟨t, hb⟩ := h.books
  exact ⟨⟨t, hb.write hs⟩, hshort h.short, h.pumping.grows hg, h.served.grows hg hb.le', h.fine⟩

theorem goes (h : TxInv s) {p : Pumper} (hp : p.phase.Ok s.ring s.handled.length) :
    TxInv { s with pump := p } :=
  ⟨h.books, h.short, hp, h.served, h.fine⟩

theorem pumpOne (h : TxInv s) : TxInv s.pumpOne := by
  obtain ⟨t, hb⟩ := h.books
  obtain ⟨hle, -⟩ := hb.avail hb.snap
  unfold TxState.pumpOne
  split
  · exact h
  · rw [if_neg (by rw [BitVec.lt_def]; exact Nat.not_lt.mpr hle)]
    exact h.goes hb.snap

/-- The next step of the loop. When `UdpSend` has room, netd comes nearer to the next record. -/
theorem next (h : TxInv s) (hp : s.pump ≠ .idle) (full : Bool) :
    ∃ s', s.next full = some s' ∧ TxInv s' ∧ (full = false → s.Busy →
      s'.handled.length = s.handled.length + 1 ∨
      s'.handled = s.handled ∧ s'.Busy ∧ s'.pump.phase.rank < s.pump.phase.rank) := by
  obtain ⟨t, hb⟩ := h.books
  have hpm := h.pumping
  unfold TxState.next TxState.Busy
  cases hw : s.pump with
  | idle => exact absurd hw hp
  | looping head budget =>
    rw [hw] at hpm
    dsimp only
    split
    · exact ⟨_, rfl, h.goes (Phase.enter hb hpm (And.left ‹_›)), fun _ _ =>
        .inr ⟨rfl, trivial, Nat.lt_succ_self (2 ^ 16 + 8)⟩⟩
    · exact ⟨_, rfl, h.goes trivial, fun _ hbusy => absurd hbusy ‹_›⟩
  | header head budget got =>
    rw [hw] at hpm
    obtain ⟨hmore, hall⟩ := Phase.Ok.header hb h.short hpm
    dsimp only
    split
    · refine ⟨_, rfl, h.goes (hmore ‹_›), fun _ _ => .inr ⟨rfl, trivial, ?_⟩⟩
      simp only [Pumper.phase, Phase.rank, List.length_append, List.length_singleton]
      omega
    · obtain ⟨hgood, hpay⟩ := hall ‹_›
      rw [if_neg hgood]
      refine ⟨_, rfl, h.goes (hpay _), fun _ _ => .inr ⟨rfl, trivial, ?_⟩⟩
      simp only [Pumper.phase, Phase.rank, List.length_nil]
      omega
  | payload head budget hd got =>
    rw [hw] at hpm
    obtain ⟨hmore, hall⟩ := Phase.Ok.payload hb h.short hpm
    rw [Nat.min_self] at hmore hall
    dsimp only
    split
    · refine ⟨_, rfl, h.goes (hmore ‹_›), fun _ _ => .inr ⟨rfl, trivial, ?_⟩⟩
      simp only [Pumper.phase, Phase.rank, List.length_append, List.length_singleton]
      omega
    obtain ⟨hc, hadv, hy⟩ := hall ‹_›
    split
    · exact ⟨_, rfl, h.goes trivial, fun hf _ => absurd (And.right ‹_›) (by simp [hf])⟩
    · have hsnap := hb.snap_advance hpm.1.snap (by have := hpm.1.some; omega)
      refine ⟨_, rfl, ⟨⟨t, ?_⟩, h.short, ?_, h.served.snoc hc hy, h.fine⟩, fun _ _ =>
        .inl List.length_append⟩ <;> rw [List.length_append]
      · exact hadv
      · exact hsnap
  | done => exact ⟨_, rfl, ⟨⟨_, hb.release⟩, h.short, trivial, h.served, h.fine⟩, nofun⟩

theorem step (h : TxInv s) {a : TxAct} (hs : s.step a = some s') : TxInv s' := by
  cases a with
  | sendTo d closed =>
    simp only [TxState.step] at hs
    split at hs
    · split at hs
      · cases hs
        exact h
      · rename_i hok
        cases hs
        obtain ⟨t, hb⟩ := h.books
        have hlen : d.payload.length ≤ sockDgramMax := by
          rw [not_or] at hok
          exact Nat.not_lt.mp hok.1
        exact ⟨⟨t, hb.call d⟩, ⟨h.short.1, hlen⟩, h.pumping.grows (.of_eq rfl rfl), h.served,
          h.fine⟩
    · cases hs
  | write =>
    obtain ⟨r, hr, rfl⟩ := Option.map_eq_some_iff.mp hs
    exact h.write hr
  | bind =>
    cases hs
    exact ⟨h.books, h.short, h.pumping, h.served, h.fine⟩
  | pumpOne =>
    simp only [TxState.step] at hs
    split at hs
    · cases hs
      exact h.pumpOne
    · cases hs
  | pump full =>
    have hp : s.pump ≠ .idle := by
      intro hp
      simp only [TxState.step, TxState.next, hp] at hs
      cases hs
    obtain ⟨m, hm, hi, -⟩ := h.next hp full
    cases hm.symm.trans hs
    exact hi

/-- netd gets to the next record that is there; `UdpSend` has room. -/
theorem gets (h : TxInv s) (hc : s.handled.length < s.ring.accepted.length) :
    ∃ n s', LTS.steps (·.next false) n s.pumpOne = some s' ∧
      s'.handled.length = s.handled.length + 1 := by
  obtain ⟨t, hb⟩ := h.books
  obtain ⟨hle, hsome⟩ := hb.next hc
  have hp : s.pumpOne = { s with pump := .looping s.ring.head 16 } := by
    have hne : s.ring.head - s.ring.rcur ≠ 0 := by
      intro h0
      rw [h0] at hsome
      exact absurd hsome (by decide)
    unfold TxState.pumpOne
    rw [if_neg hne, if_neg (by rw [BitVec.lt_def]; exact Nat.not_lt.mpr hle)]
  rw [hp]
  refine LTS.steps_reach (f := fun x : TxState => x.next false)
    (I := fun x => TxInv x ∧ x.handled = s.handled ∧ x.Busy)
    (fun x => x.pump.phase.rank) ?_ ⟨h.goes hb.snap, rfl, hsome, by decide⟩
  intro x ⟨hx, hy, hbusy⟩
  have hidle : x.pump ≠ .idle := by
    intro hi
    simp only [TxState.Busy, hi] at hbusy
  obtain ⟨x', hs, hi, hnear⟩ := hx.next hidle false
  rw [hy] at hnear
  obtain hone | ⟨h1, h2, hlt⟩ := hnear rfl hbusy
  · exact ⟨x', hs, .inl hone⟩
  · exact ⟨x', hs, .inr ⟨⟨hi, h1, h2⟩, hlt⟩⟩

end TxInv

/-! ## Every run -/

/-- A bound socket stays bound, and what netd takes from it goes to `UdpSend`. -/
theorem TxState.step_bound {s s' : TxState} {a : TxAct} (hb : s.bound = true)
    (hs : s.step a = some s') :
    s'.bound = true ∧ ∃ more, s'.handled = s.handled ++ more ∧ ∀ p ∈ more, p.1 = true := by
  have same : ∃ more, s.handled = s.handled ++ more ∧ ∀ p ∈ more, p.1 = true :=
    ⟨[], (List.append_nil _).symm, nofun⟩
  cases a with
  | sendTo d closed =>
    simp only [TxState.step] at hs
    split at hs
    · split at hs <;> cases hs <;> exact ⟨hb, same⟩
    · cases hs
  | write =>
    obtain ⟨r, -, rfl⟩ := Option.map_eq_some_iff.mp hs
    exact ⟨hb, same⟩
  | bind =>
    cases hs
    exact ⟨rfl, same⟩
  | pumpOne =>
    simp only [TxState.step] at hs
    split at hs
    · cases hs
      unfold TxState.pumpOne
      split
      · exact ⟨hb, same⟩
      split <;> exact ⟨hb, same⟩
    · cases hs
  | pump full =>
    simp only [TxState.step, TxState.next] at hs
    split at hs
    · cases hs
    · split at hs <;> cases hs <;> exact ⟨hb, same⟩
    · split at hs
      · cases hs
        exact ⟨hb, same⟩
      split at hs <;> cases hs <;> exact ⟨hb, same⟩
    · split at hs
      · cases hs
        exact ⟨hb, same⟩
      split at hs
      · cases hs
        exact ⟨hb, same⟩
      · cases hs
        refine ⟨hb, _, rfl, fun p hp => ?_⟩
        rw [List.mem_singleton.mp hp]
        exact hb
    · cases hs
      exact ⟨hb, same⟩

theorem UdpState.run_bound {s s' : UdpState} {ls : List UdpAct} (hr : udpSystem.Run s ls s')
    (hb : s.tx.bound = true) :
    ∃ more, s'.tx.handled = s.tx.handled ++ more ∧ ∀ p ∈ more, p.1 = true := by
  induction hr with
  | nil s => exact ⟨[], (List.append_nil _).symm, nofun⟩
  | @cons s m s' l ls hs hr ih =>
    have hstep : m.tx.bound = true ∧
        ∃ more, m.tx.handled = s.tx.handled ++ more ∧ ∀ p ∈ more, p.1 = true := by
      cases l with
      | rx a =>
        obtain ⟨x, -, rfl⟩ := Option.map_eq_some_iff.mp hs
        exact ⟨hb, [], (List.append_nil _).symm, nofun⟩
      | tx a =>
        obtain ⟨x, hx, rfl⟩ := Option.map_eq_some_iff.mp hs
        exact TxState.step_bound hb hx
    obtain ⟨hm, more, he, hall⟩ := hstep
    obtain ⟨more', he', hall'⟩ := ih hm
    refine ⟨more ++ more', by rw [he', he, List.append_assoc], fun p hp => ?_⟩
    rcases List.mem_append.mp hp with hp | hp
    · exact hall p hp
    · exact hall' p hp

theorem udp_inductive : (udpSystem.restrict (fun _ => True) UdpState.Fits).Inductive
    fun s => RxInv s.rx ∧ TxInv s.tx where
  init := by
    rintro s ⟨⟨d, d', rfl⟩, -⟩
    exact ⟨.init d, .init d'⟩
  step := by
    rintro s l s' ⟨hrx, htx⟩ ⟨hs, hfit⟩
    cases l with
    | rx a =>
      obtain ⟨x, hx, rfl⟩ := Option.map_eq_some_iff.mp hs
      refine ⟨hrx.step ?_ hx, htx⟩
      rintro d rfl
      exact hfit
    | tx a =>
      obtain ⟨x, hx, rfl⟩ := Option.map_eq_some_iff.mp hs
      exact ⟨hrx, htx.step hx⟩

/-- As long as no received datagram is beyond the client's limit, what `SockRecvFrom` yields are
the received datagrams that found room, in order and with their peer, cut to the buffer, and a
call gets the next one that is there; what netd takes for sending are the datagrams that
`SockSendTo` accepted, in order, each pump takes the next one that is there, and all of them go
to `UdpSend` once the socket is bound. Neither ring is ever taken for malformed. -/
theorem udp_rings_keep_datagrams {s : UdpState}
    (h : (udpSystem.restrict (fun _ => True) UdpState.Fits).Reachable s) :
    (Served Yield.agrees s.rx.yields s.rx.ring ∧ s.rx.malformed = false ∧
      (s.rx.reader ≠ .idle → s.rx.yields.length < s.rx.ring.accepted.length →
        ∃ n x, LTS.steps (·.read false) n s.rx = some x ∧
          x.yields.length = s.rx.yields.length + 1)) ∧
    Served (fun p d => p.2.agrees d) s.tx.handled s.tx.ring ∧ s.tx.malformed = false ∧
      (s.tx.pump = .idle → s.tx.handled.length < s.tx.ring.accepted.length →
        ∃ n x, LTS.steps (·.next false) n s.tx.pumpOne = some x ∧
          x.handled.length = s.tx.handled.length + 1) ∧
      (s.tx.bound = true → ∀ ls s', udpSystem.Run s ls s' →
        ∃ more, s'.tx.handled = s.tx.handled ++ more ∧ ∀ p ∈ more, p.1 = true) := by
  obtain ⟨hrx, htx⟩ := udp_inductive.reachable h
  refine ⟨⟨hrx.served, hrx.fine, fun hr hc => hrx.gets hr hc⟩, htx.served, htx.fine,
    fun _ hc => htx.gets hc, fun hb ls s' hr => UdpState.run_bound hr hb⟩

def oneByte : Dgram := ⟨1, 2, [3], by decide⟩

/-- A one-byte datagram each way, received and sent. -/
theorem udp_rings_keep_datagrams_one : ∃ s : UdpState,
    (s.rx.yields.length = 1 ∧ s.tx.handled.length = 1) ∧
    Served Yield.agrees s.rx.yields s.rx.ring ∧
    Served (fun p d => p.2.agrees d) s.tx.handled s.tx.ring := by
  have hreach : ∃ s : UdpState,
      (udpSystem.restrict (fun _ => True) UdpState.Fits).Reachable s ∧
        s.rx.yields.length = 1 ∧ s.tx.handled.length = 1 :=
    LTS.restrict_reaches_of_foldlM
      (fun s : UdpState => s.rx.yields.length = 1 ∧ s.tx.handled.length = 1)
      (List.map UdpAct.rx ([.datagram oneByte, .recvFrom 4] ++
        List.replicate 11 .write ++ List.replicate 12 (.read false)) ++
      List.map UdpAct.tx ([.bind, .sendTo oneByte false] ++
        List.replicate 11 .write ++ [.pumpOne] ++ List.replicate 12 (.pump false)))
      ⟨fun _ => 0, fun _ => 0, rfl⟩ trivial (by decide +kernel)
  obtain ⟨s, hs, hone⟩ := hreach
  obtain ⟨hrx, htx⟩ := udp_rings_keep_datagrams hs
  exact ⟨s, hone, hrx.1, htx.1⟩

/-! ## A datagram that is too long -/

/-- 1473 bytes, one more than the client takes. -/
def oneTooMany : Dgram := ⟨1, 2, List.replicate 1473 0, by rw [List.length_replicate]; decide⟩

/-- It finds room in the ring, and the client that reads its header discards the ring. -/
theorem udp_ring_discarded : ∃ s, udpSystem.Reachable s ∧ s.rx.malformed = true :=
  LTS.reaches_of_foldlM (fun s : UdpState => s.rx.malformed = true)
    (List.map UdpAct.rx ([.datagram oneTooMany, .recvFrom 4] ++ List.replicate 1483 .write ++
      List.replicate 10 (.read false)))
    ⟨fun _ => 0, fun _ => 0, rfl⟩ (by decide +kernel)

end Zuzu.L6User
