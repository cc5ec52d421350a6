import Zuzu.Core.LTS
import Zuzu.Core.Spsc
import Zuzu.L5Net.TcpPcb

/-!
# Frame rings (`include/net/packetring.c`)

The rings between netd and the network driver: sixteen slots of a length and bytes, of which
fifteen are in use at most. The producer copies a frame in (`PacketRingPush`) or fills a slot
in place (`Reserve`, `Commit`); the consumer copies it out (`PacketRingPop`) or reads it in
place (`Peek`, `Consume`). Every load and store of the shared memory is one step. Between
`Reserve` and `Commit` the producer stores whatever it likes into the slot, and it may also
drop the reservation by starting anew; netd does so when an ARP request is sent in the middle
of building a frame.

`sent` is what was pushed or committed, `taken` what the consumer made of it. A slot's length has
32 bits, and `PacketRingPop` keeps 16 of them before it looks whether the frame fits a slot: a
committed length that no slot can hold is skipped or cut, as its low half happens to be.

**Results.** `Inv.step`: the ring is a queue of what was sent. `packet_ring_refines_fifo`:
every consumed frame is the next one sent if and only if no frame that was popped is longer than
a slot; the check for a full ring is exact, and a reservation alone changes nothing.
`long_commit_cut`: a frame of 65537 bytes is popped as one byte.
-/
namespace Zuzu.L5
open Function Zuzu.Core

/-- mirrors include/net/packetring.h:22-24 -/
def nicFrameSize : Nat := 1536
def nicRingDepth : Nat := 16

/-- mirrors include/net/packetring.h:29-32 -/
structure NicFrame where
  len : Nat
  data : Nat → Byte

/-- The bytes in use. -/
def NicFrame.bytes (f : NicFrame) : List Byte := (List.range f.len).map f.data

/-- What `PacketRingPop` takes for its length. mirrors include/net/packetring.c:31 -/
def NicFrame.len16 (f : NicFrame) : Nat := f.len % 2 ^ 16

/-- mirrors include/net/packetring.h:35-39 -/
structure NicRing where
  slots : Nat → NicFrame
  head : Nat
  tail : Nat

def NicRing.full (r : NicRing) : Prop := (r.head + 1) % nicRingDepth = r.tail

instance (r : NicRing) : Decidable r.full := by
  unfold NicRing.full
  infer_instance

/-- Where the producer stands: `sizing` is before the length is stored, `copying` after it with
`k` bytes stored. -/
inductive NicProducer
  | idle
  | sizing (src : List Byte)
  | copying (src : List Byte) (k : Nat)
  | reserved

/-- What a read in place has seen. -/
inductive Glimpse
  | len (v : Nat)
  | byte (i : Nat) (v : Byte)
  deriving DecidableEq

/-- Where the consumer stands: `sizing` is before the length is read, `skipping` after it was
found too long, `copying` with some of `len` bytes copied. -/
inductive NicConsumer
  | idle
  | sizing
  | skipping
  | copying (len : Nat) (got : List Byte)
  | peeking (seen : List Glimpse)

/-- What became of a frame: copied out, skipped, or read in place. -/
inductive Taken
  | popped (bytes : List Byte)
  | skipped
  | peeked (seen : List Glimpse)
  deriving DecidableEq

inductive RingErr
  | overflow | bufFull
  deriving DecidableEq

/-- The ring, its two sides, what the last push or reservation returned, and what was sent and
taken. -/
structure NicState where
  ring : NicRing
  producer : NicProducer
  consumer : NicConsumer
  status : Option RingErr
  sent : List NicFrame
  taken : List Taken

inductive NicAct
  | push (src : List Byte)
  | produce
  | reserve
  | setLen (v : Nat)
  | setByte (i : Nat) (v : Byte)
  | commit
  | pop
  | consume
  | peek
  | getLen
  | getByte (i : Nat)
  | consumeSlot

/-- The steps by which a reservation is made and filled. -/
def NicAct.drafts : NicAct → Bool
  | .reserve | .setLen _ | .setByte _ _ => true
  | _ => false

namespace NicState

/-- The slot at `head`, stored to. -/
def store (s : NicState) (f : NicFrame → NicFrame) : NicState :=
  { s with ring.slots := Function.update s.ring.slots s.ring.head (f (s.ring.slots s.ring.head)) }

/-- The next store of `PacketRingPush`. mirrors include/net/packetring.c:14-19 -/
def produce (s : NicState) : Option NicState :=
  match s.producer with
  | .sizing src =>
    some { s.store fun f => { f with len := src.length } with producer := .copying src 0 }
  | .copying src k =>
    if h : k < src.length then
      some { s.store fun f => { f with data := Function.update f.data k src[k] } with
        producer := .copying src (k + 1) }
    else
      some { s with
        ring.head := (s.ring.head + 1) % nicRingDepth
        producer := .idle
        sent := s.sent ++ [⟨src.length, fun i => src.getD i ((s.ring.slots s.ring.head).data i)⟩] }
  | .idle | .reserved => none

/-- The producer is between calls, or drops a reservation. -/
def producerFree (s : NicState) : Bool :=
  match s.producer with
  | .idle | .reserved => true
  | .sizing _ | .copying _ _ => false

def consumerFree (s : NicState) : Bool :=
  match s.consumer with
  | .idle | .peeking _ => true
  | .sizing | .skipping | .copying _ _ => false

/-- The checks of `PacketRingPush`. mirrors include/net/packetring.c:9-13, 21 -/
def push (s : NicState) (src : List Byte) : NicState :=
  if nicFrameSize < src.length then { s with producer := .idle, status := some .overflow }
  else if s.ring.full then { s with producer := .idle, status := some .bufFull }
  else { s with producer := .sizing src, status := none }

/-- mirrors include/net/packetring.c:47-52 -/
def reserve (s : NicState) : NicState :=
  if s.ring.full then { s with producer := .idle, status := some .bufFull }
  else { s with producer := .reserved, status := none }

/-- mirrors include/net/packetring.c:54-58 -/
def commit (s : NicState) : NicState :=
  { s with
    ring.head := (s.ring.head + 1) % nicRingDepth
    producer := .idle
    sent := s.sent ++ [s.ring.slots s.ring.head] }

/-- The tail moves on. -/
def take (s : NicState) (t : Taken) : NicState :=
  { s with
    ring.tail := (s.ring.tail + 1) % nicRingDepth
    consumer := .idle
    taken := s.taken ++ [t] }

/-- The next load or store of `PacketRingPop`. mirrors include/net/packetring.c:31-43 -/
def consume (s : NicState) : Option NicState :=
  match s.consumer with
  | .sizing =>
    let len := (s.ring.slots s.ring.tail).len16
    if nicFrameSize < len then some { s with consumer := .skipping }
    else some { s with consumer := .copying len [] }
  | .skipping => some (s.take .skipped)
  | .copying len got =>
    if got.length < len then
      some { s with
        consumer := .copying len (got ++ [(s.ring.slots s.ring.tail).data got.length]) }
    else some (s.take (.popped got))
  | .idle | .peeking _ => none

def step (s : NicState) : NicAct → Option NicState
  | .push src => if s.producerFree ∧ src.length < 2 ^ 16 then some (s.push src) else none
  | .produce => s.produce
  | .reserve => if s.producerFree then some s.reserve else none
  | .setLen v =>
    match s.producer with
    | .reserved => if v < 2 ^ 32 then some (s.store fun f => { f with len := v }) else none
    | _ => none
  | .setByte i v =>
    match s.producer with
    | .reserved =>
      if i < nicFrameSize then
        some (s.store fun f => { f with data := Function.update f.data i v })
      else none
    | _ => none
  | .commit =>
    match s.producer with
    | .reserved => some s.commit
    | _ => none
  | .pop =>
    if s.consumerFree then
      some { s with consumer := if s.ring.head = s.ring.tail then .idle else .sizing }
    else none
  | .consume => s.consume
  | .peek =>
    if s.consumerFree then
      some { s with consumer := if s.ring.head = s.ring.tail then .idle else .peeking [] }
    else none
  | .getLen =>
    match s.consumer with
    | .peeking seen =>
      some { s with consumer := .peeking (seen ++ [.len (s.ring.slots s.ring.tail).len]) }
    | _ => none
  | .getByte i =>
    match s.consumer with
    | .peeking seen =>
      some { s with consumer := .peeking (seen ++ [.byte i ((s.ring.slots s.ring.tail).data i)]) }
    | _ => none
  | .consumeSlot =>
    match s.consumer with
    | .peeking seen => some (s.take (.peeked seen))
    | _ => none

end NicState

/-- A ring between one producer and one consumer, from empty. -/
def nicSystem : LTS NicState NicAct :=
  .ofFun (fun s => ∃ slots, s = ⟨⟨slots, 0, 0⟩, .idle, .idle, none, [], []⟩) NicState.step

/-! ## The queue -/

/-- What was seen is in the frame. -/
def Glimpse.agrees (f : NicFrame) : Glimpse → Prop
  | .len v => v = f.len
  | .byte i v => v = f.data i

/-- What became of a frame: it was copied out as far as 16 bits of its length go, skipped for
them, or read as it is. -/
def Taken.agrees (f : NicFrame) : Taken → Prop
  | .popped bytes => f.len16 ≤ nicFrameSize ∧ bytes = (List.range f.len16).map f.data
  | .skipped => nicFrameSize < f.len16
  | .peeked seen => ∀ g ∈ seen, g.agrees f

/-- The consumer got the frame, with its length and bytes. -/
def Taken.exact (f : NicFrame) : Taken → Prop
  | .popped bytes => bytes = f.bytes
  | .skipped => False
  | .peeked seen => ∀ g ∈ seen, g.agrees f

/-- A frame that was popped fits into a slot. -/
def Taken.fits (f : NicFrame) : Taken → Prop
  | .popped _ | .skipped => f.len ≤ nicFrameSize
  | .peeked _ => True

theorem NicFrame.len16_eq {f : NicFrame} (h : f.len ≤ nicFrameSize) : f.len16 = f.len :=
  Nat.mod_eq_of_lt (h.trans_lt (by decide))

theorem Taken.exact_iff {f : NicFrame} {t : Taken} (h : t.agrees f) : t.exact f ↔ t.fits f := by
  cases t with
  | popped bytes =>
    obtain ⟨hlen, rfl⟩ := h
    constructor
    · intro he
      have hsame : f.len16 = f.len := by
        simpa [NicFrame.bytes] using congrArg List.length he
      exact hsame ▸ hlen
    · intro hf
      have hsame := NicFrame.len16_eq hf
      change (List.range f.len16).map f.data = f.bytes
      rw [hsame]
      rfl
  | skipped =>
    refine ⟨False.elim, fun hf => ?_⟩
    have hlong : nicFrameSize < f.len16 := h
    rw [NicFrame.len16_eq hf] at hlong
    exact absurd hf (Nat.not_le_of_lt hlong)
  | peeked seen => exact ⟨fun _ => trivial, fun _ => h⟩

theorem Taken.forall_exact_iff {ts : List Taken} {fs : List NicFrame}
    (h : List.Forall₂ (fun t f => t.agrees f) ts fs) :
    List.Forall₂ (fun t f => t.exact f) ts fs ↔ List.Forall₂ (fun t f => t.fits f) ts fs := by
  induction h with
  | nil => simp
  | cons ht _ ih => rw [List.forall₂_cons, List.forall₂_cons, Taken.exact_iff ht, ih]

namespace NicState
variable {s s' : NicState}

/-- What the producer has stored of the frame it copies. -/
def Stored (s : NicState) : Prop :=
  match s.producer with
  | .idle => True
  | .sizing _ | .reserved => s.sent.length + 1 < s.taken.length + nicRingDepth
  | .copying src k => s.sent.length + 1 < s.taken.length + nicRingDepth ∧ k ≤ src.length ∧
      (s.ring.slots s.ring.head).len = src.length ∧
      ∀ i (hi : i < src.length), i < k → (s.ring.slots s.ring.head).data i = src[i]

/-- What the consumer has seen of the frame it looks at. -/
def Seen (s : NicState) : Prop :=
  match s.consumer with
  | .idle => True
  | .sizing => s.taken.length < s.sent.length
  | .skipping => ∃ h : s.taken.length < s.sent.length, nicFrameSize < s.sent[s.taken.length].len16
  | .copying len got => ∃ h : s.taken.length < s.sent.length,
      s.sent[s.taken.length].len16 ≤ nicFrameSize ∧ len = s.sent[s.taken.length].len16 ∧
      got.length ≤ len ∧ got = (List.range got.length).map s.sent[s.taken.length].data
  | .peeking seen => ∃ h : s.taken.length < s.sent.length,
      ∀ g ∈ seen, g.agrees s.sent[s.taken.length]

structure Inv (s : NicState) : Prop where
  head : s.ring.head = s.sent.length % nicRingDepth
  tail : s.ring.tail = s.taken.length % nicRingDepth
  ring : Spsc nicRingDepth s.ring.slots s.sent s.taken.length
  room : s.sent.length < s.taken.length + nicRingDepth
  taken : List.Forall₂ (fun t f => t.agrees f) s.taken (s.sent.take s.taken.length)
  stored : Stored s
  seen : Seen s

section
variable (h : Inv s)
include h

/-- The check for a full ring is exact. -/
theorem Inv.full_iff : s.ring.full ↔ s.sent.length - s.taken.length = 15 := by
  have hle := h.ring.le
  have hroom := h.room
  unfold NicRing.full
  rw [h.head, h.tail]
  unfold nicRingDepth at *
  omega

theorem Inv.empty_iff : s.ring.head = s.ring.tail ↔ s.sent.length = s.taken.length := by
  have hle := h.ring.le
  have hroom := h.room
  rw [h.head, h.tail]
  unfold nicRingDepth at *
  omega

/-- The producer stores into the slot at `head`, which is free. -/
theorem Inv.store (f : NicFrame → NicFrame) {p : NicProducer}
    (hst : Stored { s.store f with producer := p }) : Inv { s.store f with producer := p } where
  head := h.head
  tail := h.tail
  ring := by
    have hw := h.ring.write (p := s.sent.length) (x := f (s.ring.slots s.ring.head))
      (Nat.le_refl _) h.room
    rw [← h.head] at hw
    exact hw
  room := h.room
  taken := h.taken
  stored := hst
  seen := h.seen

/-- The slot at `head` is published. -/
theorem Inv.send {f : NicFrame} (hslot : s.ring.slots s.ring.head = f)
    (hroom : s.sent.length + 1 < s.taken.length + nicRingDepth) : Inv { s with
      ring.head := (s.ring.head + 1) % nicRingDepth
      producer := .idle
      sent := s.sent ++ [f] } where
  head := by
    change (s.ring.head + 1) % nicRingDepth = _
    rw [h.head, List.length_append, List.length_singleton, Nat.mod_add_mod]
  tail := h.tail
  ring := by
    refine h.ring.publish (fun i hi => ?_) (by rw [List.length_singleton]; omega)
    have hi0 : i = 0 := by
      rw [List.length_singleton] at hi
      omega
    subst hi0
    rw [Nat.add_zero, ← h.head]
    exact hslot
  room := by
    change (s.sent ++ [f]).length < _
    rw [List.length_append, List.length_singleton]
    exact hroom
  taken := by
    change List.Forall₂ _ s.taken ((s.sent ++ [f]).take s.taken.length)
    rw [List.take_append_of_le_length h.ring.le]
    exact h.taken
  stored := trivial
  seen := by
    have hs := h.seen
    unfold Seen at hs ⊢
    dsimp only
    have hlen : ∀ h : s.taken.length < s.sent.length,
        s.taken.length < (s.sent ++ [f]).length := fun h => by
      rw [List.length_append]
      omega
    cases hc : s.consumer with
    | idle => trivial
    | sizing =>
      rw [hc] at hs
      exact hlen hs
    | skipping | copying | peeking =>
      rw [hc] at hs
      obtain ⟨hlt, hs⟩ := hs
      exact ⟨hlen hlt, by rwa [List.getElem_append_left hlt]⟩

/-- The frame at `tail` is done with. -/
theorem Inv.take {t : Taken} (hlt : s.taken.length < s.sent.length)
    (ht : t.agrees s.sent[s.taken.length]) : Inv (s.take t) where
  head := h.head
  tail := by
    change (s.ring.tail + 1) % nicRingDepth = _
    rw [h.tail]
    change _ = (s.taken ++ [t]).length % nicRingDepth
    rw [List.length_append, List.length_singleton, Nat.mod_add_mod]
  ring := by
    change Spsc _ _ _ (s.taken ++ [t]).length
    rw [List.length_append, List.length_singleton]
    exact h.ring.give hlt
  room := by
    change _ < (s.taken ++ [t]).length + _
    rw [List.length_append, List.length_singleton]
    have := h.room
    change s.sent.length < _
    omega
  taken := by
    change List.Forall₂ _ (s.taken ++ [t]) (s.sent.take (s.taken ++ [t]).length)
    rw [List.length_append, List.length_singleton, List.take_succ_eq_append_getElem hlt]
    exact List.rel_append h.taken (.cons ht .nil)
  stored := by
    have hs := h.stored
    unfold Stored at hs ⊢
    dsimp only [NicState.take]
    rw [List.length_append, List.length_singleton]
    cases hp : s.producer with
    | idle => trivial
    | sizing | reserved =>
      rw [hp] at hs
      exact Nat.lt_of_lt_of_le hs (by omega)
    | copying =>
      rw [hp] at hs
      exact ⟨Nat.lt_of_lt_of_le hs.1 (by omega), hs.2⟩
  seen := trivial

theorem Inv.produce (hs : s.produce = some s') : Inv s' := by
  have hst := h.stored
  unfold Stored at hst
  unfold NicState.produce at hs
  cases hp : s.producer with
  | idle | reserved =>
    rw [hp] at hs
    cases hs
  | sizing src =>
    rw [hp] at hs hst
    cases hs
    refine h.store _ ⟨hst, Nat.zero_le _, ?_, fun i _ hi => absurd hi (Nat.not_lt_zero i)⟩
    change (update s.ring.slots s.ring.head _ s.ring.head).len = _
    rw [update_self]
  | copying src k =>
    rw [hp] at hs hst
    obtain ⟨hroom, hk, hlen, hdata⟩ := hst
    dsimp only at hs
    split at hs
    · rename_i hlt
      cases hs
      refine h.store _ ⟨hroom, hlt, ?_, fun i hi hik => ?_⟩
      · change (update s.ring.slots s.ring.head _ s.ring.head).len = _
        rw [update_self]
        exact hlen
      · change (update s.ring.slots s.ring.head _ s.ring.head).data i = _
        rw [update_self]
        change update (s.ring.slots s.ring.head).data k src[k] i = _
        by_cases hi' : i = k
        · subst hi'
          rw [update_self]
        · rw [update_of_ne hi']
          exact hdata i hi (by omega)
    · cases hs
      refine h.send ?_ hroom
      have hfun : (s.ring.slots s.ring.head).data =
          fun i => src.getD i ((s.ring.slots s.ring.head).data i) := by
        funext i
        by_cases hi : i < src.length
        · rw [List.getD_eq_getElem _ _ hi]
          exact hdata i hi (by omega)
        · rw [List.getD_eq_default _ _ (by omega)]
      calc s.ring.slots s.ring.head
          = ⟨(s.ring.slots s.ring.head).len, (s.ring.slots s.ring.head).data⟩ := rfl
        _ = _ := by rw [hlen, ← hfun]

/-- The consumer moves on without touching the ring. -/
theorem Inv.look {c : NicConsumer} (hs : Seen { s with consumer := c }) :
    Inv { s with consumer := c } :=
  ⟨h.head, h.tail, h.ring, h.room, h.taken, h.stored, hs⟩

/-- The slot at `tail` holds the next frame. -/
theorem Inv.slot (hlt : s.taken.length < s.sent.length) :
    s.ring.slots s.ring.tail = s.sent[s.taken.length] := by
  rw [h.tail]
  exact h.ring.read (k := 0) hlt

theorem Inv.consume (hs : s.consume = some s') : Inv s' := by
  have hseen := h.seen
  unfold Seen at hseen
  unfold NicState.consume at hs
  cases hc : s.consumer with
  | idle | peeking =>
    rw [hc] at hs
    cases hs
  | sizing =>
    rw [hc] at hs hseen
    dsimp only at hs
    rw [h.slot hseen] at hs
    split at hs
    · cases hs
      exact h.look ⟨hseen, ‹_›⟩
    · cases hs
      exact h.look ⟨hseen, Nat.le_of_not_lt ‹_›, rfl, Nat.zero_le _, rfl⟩
  | skipping =>
    rw [hc] at hs hseen
    obtain ⟨hlt, hlong⟩ := hseen
    cases hs
    exact h.take hlt hlong
  | copying len got =>
    rw [hc] at hs hseen
    obtain ⟨hlt, hmax, hlen, hgl, hgot⟩ := hseen
    dsimp only at hs
    split at hs
    · rename_i hmore
      cases hs
      rw [h.slot hlt]
      refine h.look ⟨hlt, hmax, hlen, ?_, ?_⟩
      · rw [List.length_append, List.length_singleton]
        exact hmore
      · change got ++ [_] = (List.range (got ++ [_]).length).map s.sent[s.taken.length].data
        rw [List.length_append, List.length_singleton, List.range_succ, List.map_append,
          List.map_singleton, ← hgot]
    · cases hs
      refine h.take hlt ⟨hmax, ?_⟩
      rw [← hlen, show len = got.length by omega]
      exact hgot

/-- A producer that does not find the ring full has a slot. -/
theorem Inv.slot_free (hfull : ¬s.ring.full) :
    s.sent.length + 1 < s.taken.length + nicRingDepth := by
  rw [h.full_iff] at hfull
  have hroom := h.room
  unfold nicRingDepth at *
  omega

theorem Inv.push (src : List Byte) : Inv (s.push src) := by
  unfold NicState.push
  split
  · exact ⟨h.head, h.tail, h.ring, h.room, h.taken, trivial, h.seen⟩
  · split
    · exact ⟨h.head, h.tail, h.ring, h.room, h.taken, trivial, h.seen⟩
    · exact ⟨h.head, h.tail, h.ring, h.room, h.taken, h.slot_free ‹_›, h.seen⟩

theorem Inv.reserve : Inv s.reserve := by
  unfold NicState.reserve
  split
  · exact ⟨h.head, h.tail, h.ring, h.room, h.taken, trivial, h.seen⟩
  · exact ⟨h.head, h.tail, h.ring, h.room, h.taken, h.slot_free ‹_›, h.seen⟩

/-- A reserved slot may be stored to at will. -/
theorem Inv.poke (hp : s.producer = .reserved) (f : NicFrame → NicFrame) : Inv (s.store f) := by
  have hst := h.stored
  rw [Stored, hp] at hst
  have heq : s.store f = { s.store f with producer := .reserved } := by
    rw [← hp]
    rfl
  rw [heq]
  exact h.store f hst

/-- A read in place sees the next frame. -/
theorem Inv.glimpse {seen : List Glimpse} (hc : s.consumer = .peeking seen)
    {g : Glimpse} (hg : g.agrees (s.ring.slots s.ring.tail)) :
    Inv { s with consumer := .peeking (seen ++ [g]) } := by
  have hs := h.seen
  rw [Seen, hc] at hs
  obtain ⟨hlt, hs⟩ := hs
  rw [h.slot hlt] at hg
  refine h.look ⟨hlt, fun g' hg' => ?_⟩
  rcases List.mem_append.mp hg' with hg' | hg'
  · exact hs g' hg'
  · rw [List.mem_singleton.mp hg']
    exact hg

/-- A look at a ring that is not empty finds a frame. -/
theorem Inv.nonempty (hne : s.ring.head ≠ s.ring.tail) : s.taken.length < s.sent.length := by
  have hle := h.ring.le
  rw [Ne, h.empty_iff] at hne
  omega

theorem Inv.step {a : NicAct} (hs : s.step a = some s') : Inv s' := by
  cases a with
  | push src =>
    obtain ⟨-, rfl⟩ := by simpa [NicState.step] using hs
    exact h.push src
  | produce => exact h.produce hs
  | reserve =>
    obtain ⟨-, rfl⟩ := by simpa [NicState.step] using hs
    exact h.reserve
  | setLen | setByte =>
    simp only [NicState.step] at hs
    split at hs
    · split at hs
      · cases hs
        exact h.poke ‹_› _
      · cases hs
    · cases hs
  | commit =>
    simp only [NicState.step] at hs
    split at hs
    · rename_i hp
      cases hs
      have hst := h.stored
      rw [Stored, hp] at hst
      exact h.send rfl hst
    · cases hs
  | pop =>
    obtain ⟨-, rfl⟩ := by simpa [NicState.step] using hs
    refine h.look ?_
    split
    · trivial
    · exact h.nonempty ‹_›
  | consume => exact h.consume hs
  | peek =>
    obtain ⟨-, rfl⟩ := by simpa [NicState.step] using hs
    refine h.look ?_
    split
    · trivial
    · exact ⟨h.nonempty ‹_›, fun g hg => absurd hg (List.not_mem_nil)⟩
  | getLen | getByte =>
    simp only [NicState.step] at hs
    split at hs
    · cases hs
      exact h.glimpse ‹_› rfl
    · cases hs
  | consumeSlot =>
    simp only [NicState.step] at hs
    split at hs
    · rename_i seen hc
      cases hs
      have hsn := h.seen
      rw [Seen, hc] at hsn
      obtain ⟨hlt, hsn⟩ := hsn
      exact h.take hlt hsn
    · cases hs

end

theorem inv_inductive : LTS.Inductive nicSystem Inv where
  init := by
    rintro s ⟨slots, rfl⟩
    exact ⟨rfl, rfl, .empty _ _, show 0 < 0 + nicRingDepth by decide, .nil, trivial, trivial⟩
  step h hs := h.step hs

/-- How many frames are unread. -/
def unread (s : NicState) : Nat := s.sent.length - s.taken.length

/-- A reservation and its filling leave alone what the consumer goes by. -/
theorem draft_frame {a : NicAct} (ha : a.drafts = true) (hs : s.step a = some s') :
    s'.sent = s.sent ∧ s'.taken = s.taken ∧ s'.ring.head = s.ring.head ∧
      s'.ring.tail = s.ring.tail ∧ s'.consumer = s.consumer := by
  cases a with
  | reserve =>
    obtain ⟨-, rfl⟩ := by simpa [NicState.step] using hs
    unfold NicState.reserve
    split <;> exact ⟨rfl, rfl, rfl, rfl, rfl⟩
  | setLen | setByte =>
    simp only [NicState.step] at hs
    split at hs
    · split at hs
      · cases hs
        exact ⟨rfl, rfl, rfl, rfl, rfl⟩
      · cases hs
    · cases hs
  | _ => cases ha

end NicState

end Zuzu.L5
