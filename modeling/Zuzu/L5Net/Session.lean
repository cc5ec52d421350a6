import Mathlib.Data.Nat.Bitwise
import Zuzu.L5Net.Netd

/-!
# Sessions (`netd/transport/session.c`)

Every client attaches once and gets a slot, a number made of the slot and its generation, and
the bit it rings on netd's doorbell. Requests name the session by its number; the sender's
marker has to be the one that attached. Events from outside (handles that cannot be copied or
bound, replies that are lost, memory that cannot be mapped) are parameters of the requests.
`attached` counts how often a slot was given away and steers nothing.

The doorbell is decoded by `bits & SESSION_BIT(i)`, which takes the number of the bit for a
mask: the bit a client rings is never among those its own slot is looked for with.

**Results.** `doorbell_exact_iff`: which words are decoded as they were meant.
Paths are relative to `user/services/`.
-/
namespace Zuzu.L5
open Zuzu.Core

/-- mirrors netd/transport/session.h:9-10 and include/types.h:76 -/
def sessionMax : Nat := 30
def sessionSocketsMax : Nat := 64
def markerNone : Nat := 0

/-- mirrors netd/transport/session.h:12-21; handles are `none` where the source has -1 -/
structure Session where
  inUse : Bool := false
  nsockets : Nat := 0
  owner : Nat := markerNone
  live : Option Nat := none
  appEvent : Option Nat := none
  appBit : Nat := 0
  dirty : Bool := false
  deriving DecidableEq, Repr

/-- mirrors netd/transport/session.c:8-11 -/
def sessionBit (slot : Nat) : Nat := slot + 1
def sessionIndex (gen slot : Nat) : Nat := gen * 2 ^ 8 + slot % 2 ^ 8
def indexSlot (index : Nat) : Nat := index % 2 ^ 8
def indexGen (index : Nat) : Nat := index / 2 ^ 8

/-- mirrors netd/transport/session.c:105-107 -/
def nextGen (gen : Nat) : Nat := if (gen + 1) % 2 ^ 24 = 0 then 1 else (gen + 1) % 2 ^ 24

/-- `g_sessions`, `g_gen` and the rest of netd. -/
structure Server where
  sess : Nat → Session
  gen : Nat → Nat
  attached : Nat → Nat
  net : Netd

/-- What a client asks for. `mem` is what the memory object says, `map` what its mapping does;
`dup` and `bind` are the errors of those calls, `sent` whether the reply got through. -/
inductive SockCmd
  | attach (dup bind : Option SockErr) (sent : Bool)
  | notify (session bit : Nat)
  | open (session : Nat) (kind : Option SockKind) (mem map : Option SockErr)
  | bind (session sock a : Nat)
  | connect (session sock a b : Nat) (isn : Seq)
  | listen (session sock a : Nat) (b : Int)
  | accept (session sock : Nat) (mem map : Option SockErr) (sizes : List Nat)
  | close (session sock : Nat) (chunks : List (List Byte))
  | unknown

/-- A call on the service port: the sender's marker, the handle it grants, and whether the
message is as long as the request it names. -/
structure PortCall where
  sender : Nat
  granted : Option Nat
  whole : Bool

variable (v : Server) (slot : Nat) (call : PortCall)

namespace Server

def setSess (s : Session) : Server :=
  { v with sess := Function.update v.sess slot s }

/-- mirrors netd/transport/session.c:30-37 -/
def allocSession : Option Nat :=
  (List.range sessionMax).find? fun i => !(v.sess i).inUse

/-- mirrors netd/transport/session.c:39-48. The slot of the session. -/
def sessionFor (index caller : Nat) : Option Nat :=
  let slot := indexSlot index
  if sessionMax ≤ slot ∨ (v.sess slot).inUse = false ∨ v.gen slot ≠ indexGen index then none
  else if (v.sess slot).owner ≠ markerNone ∧ (v.sess slot).owner ≠ caller then none
  else some slot

/-- mirrors netd/transport/session.c:332-337 and socket.c:178-185 -/
def socketCloseAll (chunks : SockId → List (List Byte)) : Server :=
  { v with net := v.net.socketCloseAll slot chunks }

/-- mirrors netd/transport/session.c:50-60 -/
def releaseSession (chunks : SockId → List (List Byte)) : Server :=
  (v.socketCloseAll slot chunks).setSess slot {}

/-- The session that an attach sets up. mirrors netd/transport/session.c:102-107 -/
def attach : Server :=
  { v.setSess slot { inUse := true, owner := call.sender, live := call.granted } with
    gen := Function.update v.gen slot (nextGen (v.gen slot))
    attached := Function.update v.attached slot (v.attached slot + 1) }

/-- The answer has the session's number and its bit.
mirrors netd/transport/session.c:76-121 -/
def handleAttach (dup bind : Option SockErr) (sent : Bool) : Server × Except SockErr (List Nat) :=
  if call.granted = none then (v, .error .badArg)
  else
    match v.allocSession, dup, bind with
    | none, _, _ => (v, .error .busy)
    | some _, some e, _ => (v, .error e)
    | some _, none, some e => (v, .error e)
    | some slot, none, none =>
      let v := v.attach slot call
      if sent then (v, .ok [sessionIndex (v.gen slot) slot, sessionBit slot])
      else (v.releaseSession slot fun _ => [], .error .io)

/-- mirrors netd/transport/session.c:123-144 -/
def handleNotify (session bit : Nat) : Server × Except SockErr (List Nat) :=
  if ¬call.whole ∨ call.granted = none then (v, .error .badArg)
  else
    match v.sessionFor session call.sender with
    | none => (v, .error .notConn)
    | some slot =>
      if 31 ≤ bit then (v, .error .badArg)
      else
        (v.setSess slot
          { v.sess slot with appEvent := call.granted, appBit := bit, dirty := true }, .ok [])

/-- mirrors netd/transport/session.c:339-351 -/
def sessionSocketCount (f : Nat → Nat) : Server :=
  if sessionMax ≤ slot ∨ (v.sess slot).inUse = false then v
  else v.setSess slot { v.sess slot with nsockets := f (v.sess slot).nsockets }

/-- What stands in the way of a new socket.
mirrors netd/transport/socket.c:61-82 and session.c:346-351 -/
def obstacle (mem map : Option SockErr) : Option SockErr :=
  match mem with
  | some e => some e
  | none => if sessionSocketsMax ≤ (v.sess slot).nsockets then some .noMem else map

/-- Another socket for the session, if it was made. -/
def counted : Netd × Except SockErr Nat → Server × Except SockErr (List Nat)
  | (n, .ok id) => ({ v with net := n }.sessionSocketCount slot (· + 1), .ok [id])
  | (n, .error e) => ({ v with net := n }, .error e)

/-- mirrors netd/transport/session.c:157-184 -/
def handleSockOpen (session : Nat) (kind : Option SockKind)
    (mem map : Option SockErr) : Server × Except SockErr (List Nat) :=
  if ¬call.whole ∨ call.granted = none then (v, .error .badArg)
  else
    match v.sessionFor session call.sender with
    | none => (v, .error .notConn)
    | some slot => v.counted slot (v.net.socketOpen slot kind (v.obstacle slot mem map))

/-- mirrors netd/transport/session.c:146-155 -/
def decodeSockRequest (session : Nat) : Option Nat :=
  if call.whole then v.sessionFor session call.sender else none

/-- A request with the socket it names. The two errors are for a session and for a socket that
is not there. -/
def withSocket (session sock : Nat) (lost : SockErr)
    (f : Nat → SockId → Socket → Server × Except SockErr (List Nat)) :
    Server × Except SockErr (List Nat) :=
  match v.decodeSockRequest call session with
  | none => (v, .error lost)
  | some slot =>
    match v.net.socketFor sock slot with
    | none => (v, .error .noEnt)
    | some o =>
      match v.net.socks o with
      | none => (v, .error .noEnt)
      | some s => f slot o s

def answer : Option SockErr → Except SockErr (List Nat)
  | none => .ok []
  | some e => .error e

/-- mirrors netd/transport/session.c:186-209 -/
def handleSockBind (session sock a : Nat) : Server × Except SockErr (List Nat) :=
  v.withSocket call session sock .notConn fun _ o s =>
    if 2 ^ 16 ≤ a then (v, .error .badArg)
    else
      let (n, e) := v.net.socketBind o s a
      ({ v with net := n }, answer e)

/-- mirrors netd/transport/session.c:211-227 -/
def handleSockClose (session sock : Nat)
    (chunks : List (List Byte)) : Server × Except SockErr (List Nat) :=
  v.withSocket call session sock .notConn fun slot o s =>
    ({ v with net := v.net.socketClose o s chunks }.sessionSocketCount slot (· - 1), .ok [])

/-- mirrors netd/transport/session.c:236-252 -/
def handleSockConnect (session sock a b : Nat) (isn : Seq) : Server × Except SockErr (List Nat) :=
  v.withSocket call session sock .noEnt fun _ o s =>
    if 2 ^ 16 ≤ b then (v, .error .badArg)
    else
      let (n, e) := v.net.socketConnect o s a b isn
      ({ v with net := n }, answer e)

/-- mirrors netd/transport/session.c:254-270 -/
def handleSockListen (session sock a : Nat) (b : Int) : Server × Except SockErr (List Nat) :=
  v.withSocket call session sock .noEnt fun _ o s =>
    if 2 ^ 16 ≤ a then (v, .error .badArg)
    else
      let (n, e) := v.net.socketListen o s a b
      ({ v with net := n }, answer e)

/-- mirrors netd/transport/session.c:272-293 -/
def handleSockAccept (session sock : Nat)
    (mem map : Option SockErr) (sizes : List Nat) : Server × Except SockErr (List Nat) :=
  if call.granted = none then (v, .error .badArg)
  else
    v.withSocket call session sock .noEnt fun slot o s =>
      v.counted slot (v.net.socketAccept o s slot (v.obstacle slot mem map) sizes)

/-- mirrors netd/transport/session.c:295-329 -/
def sessionHandle : SockCmd → Server × Except SockErr (List Nat)
  | .attach dup bind sent => v.handleAttach call dup bind sent
  | .notify session bit => v.handleNotify call session bit
  | .open session kind mem map => v.handleSockOpen call session kind mem map
  | .bind session sock a => v.handleSockBind call session sock a
  | .connect session sock a b isn => v.handleSockConnect call session sock a b isn
  | .listen session sock a b => v.handleSockListen call session sock a b
  | .accept session sock mem map sizes => v.handleSockAccept call session sock mem map sizes
  | .close session sock chunks => v.handleSockClose call session sock chunks
  | .unknown => (v, .error .noSys)

/-- mirrors netd/transport/session.c:353-359 -/
def sessionDoorbell (bits : Nat) : Server :=
  { v with sess := fun i =>
      if i < sessionMax ∧ bits &&& sessionBit i ≠ 0 ∧ (v.sess i).inUse then
        { v.sess i with dirty := true }
      else v.sess i }

/-- mirrors netd/transport/session.c:371-386; `dead` says which liveness ports are gone -/
def sessionReapDead (bits : Nat) (dead : Nat → Bool)
    (chunks : SockId → List (List Byte)) : Server :=
  (List.range sessionMax).foldl (fun v slot =>
    if bits.testBit slot ∧ (v.sess slot).inUse ∧ (v.sess slot).live ≠ none ∧ dead slot then
      v.releaseSession slot chunks
    else v) v

/-! ## The doorbell -/

/-- What a client rings, given the bit it was told.
mirrors include/net/sockclient.c:259 -/
def clientRing (bit : Nat) : Nat := 1 <<< bit

/-- An attach gave the slot away and its answer told the client this bit. -/
def Advertised (slot bit : Nat) : Prop :=
  ∃ (v : Server) (call : PortCall) (index : Nat), v.allocSession = some slot ∧
    (v.handleAttach call none none true).2 = .ok [index, bit]

theorem Advertised.eq {slot bit : Nat} (h : Advertised slot bit) : bit = sessionBit slot := by
  obtain ⟨v, call, index, hs, ha⟩ := h
  unfold handleAttach at ha
  rw [hs] at ha
  split at ha
  · cases ha
  · have hl := Except.ok.inj ha
    simp only [List.cons.injEq, and_true] at hl
    exact hl.2.symm

/-- netd at its start. mirrors netd/transport/session.c:62-74 -/
def boot (envs : Stream' Env) : Server := ⟨fun _ => {}, fun _ => 0, fun _ => 0, .boot envs⟩

/-- The state after the first attach. -/
def first : Server := (boot (Stream'.const Env.idle)).attach 0 ⟨7, some 3, true⟩

theorem first_told : Advertised 0 1 := by
  have hs : (boot (Stream'.const Env.idle)).allocSession = some 0 := by decide +kernel
  refine ⟨boot (Stream'.const Env.idle), ⟨7, some 3, true⟩, 256, hs, ?_⟩
  unfold handleAttach
  rw [hs]
  rfl

/-- The first client is told bit 1, rings it, and is not marked. -/
theorem first_ring_unheard : Advertised 0 1 ∧ (first.sess 0).inUse = true ∧
    (clientRing 1).testBit 1 = true ∧
    ((first.sessionDoorbell (clientRing 1)).sess 0).dirty = false :=
  ⟨first_told, by decide +kernel, by decide, by decide +kernel⟩

theorem and_ne_zero_iff (a b : Nat) :
    a &&& b ≠ 0 ↔ ∃ k, a.testBit k = true ∧ b.testBit k = true := by
  constructor
  · intro h
    obtain ⟨k, hk⟩ := Nat.exists_testBit_of_ne_zero h
    exact ⟨k, by simpa [Nat.testBit_and] using hk⟩
  · rintro ⟨k, ha, hb⟩ h
    have hk : (a &&& b).testBit k = true := by rw [Nat.testBit_and, ha, hb]; rfl
    rw [h, Nat.zero_testBit] at hk
    cases hk

/-- **The doorbell.** The sessions in use are marked by the bits they were told exactly where
each clean one shares a bit with the word just if its own bit is in the word. -/
theorem doorbell_exact_iff (bits : Nat) (told : Nat → Nat)
    (htold : ∀ slot < sessionMax, (v.sess slot).inUse = true → Advertised slot (told slot)) :
    (∀ slot < sessionMax, (v.sess slot).inUse = true → ((v.sessionDoorbell bits).sess slot).dirty =
        ((v.sess slot).dirty || bits.testBit (told slot))) ↔
    ∀ slot < sessionMax, (v.sess slot).inUse = true → (v.sess slot).dirty = false →
      ((∃ k, bits.testBit k = true ∧ (told slot).testBit k = true) ↔
        bits.testBit (told slot) = true) := by
  refine forall_congr' fun slot => forall_congr' fun hslot => forall_congr' fun huse => ?_
  rw [← and_ne_zero_iff, (htold slot hslot huse).eq]
  have hdirty : ((v.sessionDoorbell bits).sess slot).dirty =
      ((v.sess slot).dirty || decide (bits &&& sessionBit slot ≠ 0)) := by
    unfold sessionDoorbell
    by_cases hb : bits &&& sessionBit slot ≠ 0
    · simp [hslot, hb, huse]
    · simp [hb]
  rw [hdirty]
  cases (v.sess slot).dirty with
  | true => simp
  | false =>
    cases bits.testBit (sessionBit slot) with
    | true => simp
    | false => simp

/-- The word 3 has the bit that the first client was told, and its own slot is marked by it. -/
theorem doorbell_exact_iff_first : (first.sess 0).dirty = false ∧
    ((first.sessionDoorbell 3).sess 0).dirty = true := by
  have honly : ∀ slot < sessionMax, (first.sess slot).inUse = true → slot = 0 := by
    decide +kernel
  have htold : ∀ slot < sessionMax, (first.sess slot).inUse = true →
      Advertised slot (sessionBit slot) := by
    intro slot hslot huse
    rw [honly slot hslot huse]
    exact first_told
  have hexact := (doorbell_exact_iff first 3 sessionBit htold).mpr fun slot hslot huse _ => by
    rw [honly slot hslot huse]
    exact ⟨fun _ => by decide, fun _ => ⟨0, by decide, by decide⟩⟩
  refine ⟨by decide +kernel, (hexact 0 (by decide) rfl).trans ?_⟩
  decide +kernel

end Server
end Zuzu.L5
