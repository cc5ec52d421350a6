import Zuzu.L5Net.Dhcp
import Zuzu.L6User.ShmRing

/-!
# Datagram records in a byte ring

A UDP socket's two rings (`src/include/net/socket.h:131-136`) carry records: a header with the
peer's address, its port and the length, then the payload, padded to four bytes. The writers
are `SocketUdpRx` in netd and `SockSendTo` in the client. Both keep their own cursor and look
at the reader's counter once; they store header and payload byte by byte and publish. The
padding is not written: it holds whatever was in the ring.

**Results.** `Hdr.decode_bytes`: a header is read back as it was written. `Books.write`: the
writer adds whole records to the ring and overwrites none that is unread. `Books.cell`: what
a reader finds in the next record.
-/
namespace Zuzu.L6User
open Zuzu.Core
variable {got : List Byte}

/-- mirrors src/include/net/socket.h:27, 181 and netd's `UDP_MAX_PAYLOAD` -/
def sockRingSize : BitVec 32 := 8192
def sockDgramMax : Nat := 1472

/-- A datagram with its peer. Its length is 16 bits wide. -/
structure Dgram where
  ip : BitVec 32
  port : BitVec 16
  payload : List Byte
  len_lt : payload.length < 2 ^ 16
  deriving DecidableEq

/-- mirrors src/include/net/socket.h:131-136 -/
structure Hdr where
  peerIp : BitVec 32
  peerPort : BitVec 16
  len : BitVec 16
  deriving DecidableEq

/-- The bytes of a header as they stand in memory. -/
def Hdr.bytes (h : Hdr) : List Byte :=
  L5.bytes32 h.peerIp ++ [h.peerPort.extractLsb' 0 8, h.peerPort.extractLsb' 8 8,
    h.len.extractLsb' 0 8, h.len.extractLsb' 8 8]

/-- A header read from eight bytes. -/
def Hdr.decode (b : List Byte) : Hdr :=
  ⟨L5.raw32 b 0, b.getD 5 0 ++ b.getD 4 0, b.getD 7 0 ++ b.getD 6 0⟩

@[simp] theorem Hdr.length_bytes (h : Hdr) : h.bytes.length = 8 := rfl

/-- A header is read back as it was written. -/
theorem Hdr.decode_bytes (h : Hdr) : Hdr.decode h.bytes = h := by
  have h32 : ∀ x : BitVec 32, x.extractLsb' 24 8 ++ x.extractLsb' 16 8 ++ x.extractLsb' 8 8 ++
      x.extractLsb' 0 8 = x := by
    intro x
    rw [BitVec.extractLsb'_append_extractLsb'_eq_extractLsb' (by rfl),
      BitVec.extractLsb'_append_extractLsb'_eq_extractLsb' (by rfl),
      BitVec.extractLsb'_append_extractLsb'_eq_extractLsb' (by rfl)]
    exact BitVec.extractLsb'_eq_self
  have h16 : ∀ x : BitVec 16, x.extractLsb' 8 8 ++ x.extractLsb' 0 8 = x := by
    intro x
    rw [BitVec.extractLsb'_append_extractLsb'_eq_extractLsb' (by rfl)]
    exact BitVec.extractLsb'_eq_self
  obtain ⟨ip, port, len⟩ := h
  change (⟨_, _, _⟩ : Hdr) = ⟨_, _, _⟩
  congr 1
  · exact h32 ip
  · exact h16 port
  · exact h16 len

/-- `(sizeof(h) + len + 3) & ~3` -/
def recLen (len : Nat) : Nat := (8 + len + 3) / 4 * 4

theorem le_recLen (len : Nat) : 8 + len ≤ recLen len := by
  unfold recLen
  omega

def Dgram.hdr (d : Dgram) : Hdr := ⟨d.ip, d.port, BitVec.ofNat 16 d.payload.length⟩

theorem Dgram.hdr_len (d : Dgram) : d.hdr.len.toNat = d.payload.length := by
  change (BitVec.ofNat 16 _).toNat = _
  rw [BitVec.toNat_ofNat]
  exact Nat.mod_eq_of_lt d.len_lt

/-- What a writer stores of a record. -/
def Dgram.text (d : Dgram) : List Byte := d.hdr.bytes ++ d.payload

theorem Dgram.length_text (d : Dgram) : d.text.length = 8 + d.payload.length := by
  rw [Dgram.text, List.length_append, Hdr.length_bytes]

/-- A record in the ring: what was stored, and the padding behind it. -/
structure Rec where
  dgram : Dgram
  pad : List Byte
  fills : 8 + dgram.payload.length + pad.length = recLen dgram.payload.length

namespace Rec

def bytes (r : Rec) : List Byte := r.dgram.text ++ r.pad

theorem length_bytes (r : Rec) : r.bytes.length = recLen r.dgram.payload.length := by
  rw [bytes, List.length_append, Dgram.length_text]
  exact r.fills

end Rec

/-- Where a writer stands: called with a datagram, or with `k` bytes of its record stored. -/
inductive Writer
  | idle
  | called (d : Dgram)
  | writing (d : Dgram) (k : Nat)

/-- One ring of a UDP socket: the shared counters and bytes, the cursors that each side keeps to
itself, the writer, and the records published so far. -/
structure DRing where
  head : BitVec 32
  tail : BitVec 32
  data : Nat → Byte
  wcur : BitVec 32
  rcur : BitVec 32
  writer : Writer
  accepted : List Rec

namespace DRing

def init (data : Nat → Byte) : DRing := ⟨0, 0, data, 0, 0, .idle, []⟩

/-- The room a writer sees. mirrors netd/transport/socket.c:30-35 and
src/include/net/sockclient.c:249-250; a counter that is out of range counts as a full ring -/
def room (r : DRing) : Nat :=
  if sockRingSize < r.wcur - r.tail then 0 else (sockRingSize - (r.wcur - r.tail)).toNat

/-- The cell of byte `k` of a record: header and payload are stored by two calls. -/
def recCell (pos : BitVec 32) (len k : Nat) : Nat :=
  if k < 8 then ShmRing.cell sockRingSize pos 8 k
  else ShmRing.cell sockRingSize (pos + 8) len (k - 8)

/-- What is in the ring behind the text of a record that is about to be published. -/
def padding (r : DRing) (d : Dgram) : List Byte :=
  (List.range (recLen d.payload.length - (8 + d.payload.length))).map fun i =>
    r.data ((r.wcur.toNat + (8 + d.payload.length) + i) % 8192)

theorem padding_fills (r : DRing) (d : Dgram) :
    8 + d.payload.length + (r.padding d).length = recLen d.payload.length := by
  have := le_recLen d.payload.length
  rw [padding, List.length_map, List.length_range]
  omega

/-- The next step of a writer. mirrors netd/transport/socket.c:29-43 and
src/include/net/sockclient.c:248-258 -/
def write (r : DRing) : Option DRing :=
  match r.writer with
  | .idle => none
  | .called d =>
    if r.room < recLen d.payload.length then some { r with writer := .idle }
    else some { r with writer := .writing d 0 }
  | .writing d k =>
    if h : k < d.text.length then
      some { r with
        data := Function.update r.data (recCell r.wcur d.payload.length k) d.text[k]
        writer := .writing d (k + 1) }
    else
      some { r with
        wcur := r.wcur + BitVec.ofNat 32 (recLen d.payload.length)
        head := r.wcur + BitVec.ofNat 32 (recLen d.payload.length)
        writer := .idle
        accepted := r.accepted ++ [⟨d, r.padding d, r.padding_fills d⟩] }

/-! ## The books -/

/-- Where record `n` begins in the stream of bytes. -/
def offset (r : DRing) (n : Nat) : Nat := ((r.accepted.take n).flatMap Rec.bytes).length

/-- The bytes published so far. -/
def sent (r : DRing) : List Byte := r.accepted.flatMap Rec.bytes

/-- What the writer has stored beyond `head`; `t` records have been given back. -/
def Stored (r : DRing) (t : Nat) : Prop :=
  match r.writer with
  | .writing d k => k ≤ d.text.length ∧
      r.sent.length + recLen d.payload.length ≤ r.offset t + 8192 ∧
      Draft 8192 r.data r.sent.length (d.text.take k)
  | _ => True

/-- `t` records have been given back to the writer, and the reader stands before record `c`. -/
structure Books (r : DRing) (t c : Nat) : Prop where
  head : r.head = BitVec.ofNat 32 r.sent.length
  wcur : r.wcur = BitVec.ofNat 32 r.sent.length
  tail : r.tail = BitVec.ofNat 32 (r.offset t)
  rcur : r.rcur = BitVec.ofNat 32 (r.offset c)
  le : t ≤ c
  le' : c ≤ r.accepted.length
  ring : Spsc 8192 r.data r.sent (r.offset t)
  stored : r.Stored t

variable {r r' : DRing} {t c n : Nat}

theorem offset_length (r : DRing) : r.offset r.accepted.length = r.sent.length := by
  rw [offset, List.take_length, sent]

theorem offset_succ (h : n < r.accepted.length) :
    r.offset (n + 1) = r.offset n + recLen r.accepted[n].dgram.payload.length := by
  rw [offset, List.take_succ_eq_append_getElem h, List.flatMap_append, List.length_append,
    List.flatMap_singleton, Rec.length_bytes, offset]

theorem offset_mono {m : Nat} (h : m ≤ n) : r.offset m ≤ r.offset n := by
  obtain ⟨k, rfl⟩ := Nat.exists_eq_add_of_le h
  rw [offset, offset, List.take_add, List.flatMap_append, List.length_append]
  exact Nat.le_add_right _ _

theorem offset_append {more : List Rec} (h : r'.accepted = r.accepted ++ more)
    (hn : n ≤ r.accepted.length) : r'.offset n = r.offset n := by
  rw [offset, offset, h, List.take_append_of_le_length hn]

theorem Books.room (h : Books r t c) : r.room = r.offset t + 8192 - r.sent.length := by
  have hfree := ShmRing.free_eq (w := 13) (r := ⟨sockRingSize, r.wcur, r.tail, r.data⟩) (by decide)
    rfl h.wcur h.tail h.ring.le h.ring.fits
  refine Eq.trans ?_ hfree
  unfold DRing.room ShmRing.free
  split <;> rfl

theorem recCell_eq (p : Nat) {len k : Nat} (hlen : len ≤ 8192) (hk : k < 8 + len) :
    recCell (BitVec.ofNat 32 p) len k = (p + k) % 8192 := by
  unfold recCell
  split
  · exact ShmRing.cell_eq (w := 13) (by decide) p (by decide) ‹_›
  · have hpos : BitVec.ofNat 32 p + 8 = BitVec.ofNat 32 (p + 8) := by
      rw [BitVec.ofNat_add]
      rfl
    have hcell := ShmRing.cell_eq (w := 13) (by decide) (p + 8) (k := k - 8) hlen (by omega)
    rw [hpos]
    refine hcell.trans ?_
    rw [show p + 8 + (k - 8) = p + k by omega]
    rfl

/-- What follows the text of a record in the ring is its padding. -/
theorem Books.draft (h : Books r t c) {d : Dgram}
    (hd : Draft 8192 r.data r.sent.length d.text) :
    Draft 8192 r.data r.sent.length (d.text ++ r.padding d) := by
  intro i hi
  by_cases htext : i < d.text.length
  · rw [List.getElem_append_left htext]
    exact hd i htext
  · rw [List.getElem_append_right (by omega)]
    have hpos : r.wcur.toNat = r.sent.length % 2 ^ 32 := by rw [h.wcur, BitVec.toNat_ofNat]
    have hlt := d.length_text
    simp only [padding, List.getElem_map, List.getElem_range, hpos]
    congr 1
    omega

theorem Books.init (data : Nat → Byte) : Books (.init data) 0 0 where
  head := rfl
  wcur := rfl
  tail := rfl
  rcur := rfl
  le := Nat.le_refl 0
  le' := Nat.le_refl 0
  ring := .empty _ _
  stored := trivial

/-- A writer is called. -/
theorem Books.call (h : Books r t c) (d : Dgram) :
    Books { r with writer := .called d } t c :=
  ⟨h.head, h.wcur, h.tail, h.rcur, h.le, h.le', h.ring, trivial⟩

theorem Books.write (h : Books r t c) (hs : r.write = some r') : Books r' t c := by
  have hroom := h.room
  have hst := h.stored
  unfold Stored at hst
  unfold DRing.write at hs
  cases hw : r.writer with
  | idle =>
    rw [hw] at hs
    cases hs
  | called d =>
    rw [hw] at hs
    dsimp only at hs
    split at hs
    · cases hs
      exact ⟨h.head, h.wcur, h.tail, h.rcur, h.le, h.le', h.ring, trivial⟩
    · cases hs
      have hfit := h.ring.fits
      refine ⟨h.head, h.wcur, h.tail, h.rcur, h.le, h.le', h.ring, Nat.zero_le _, ?_, ?_⟩
      · change r.sent.length + _ ≤ r.offset t + _
        omega
      · rw [List.take_zero]
        exact .nil _ _ _
  | writing d k =>
    rw [hw] at hs hst
    obtain ⟨hk, hfit, hd⟩ := hst
    have hrec := le_recLen d.payload.length
    have hlen := d.length_text
    have hle := h.ring.le
    dsimp only at hs
    split at hs
    · rename_i hlt
      cases hs
      have htake : (d.text.take k).length = k := by rw [List.length_take]; omega
      have hcell : recCell r.wcur d.payload.length k = (r.sent.length + k) % 8192 := by
        rw [h.wcur]
        exact recCell_eq _ (by omega) (by omega)
      refine ⟨h.head, h.wcur, h.tail, h.rcur, h.le, h.le', ?_, hlt, hfit, ?_⟩
      · change Spsc _ (Function.update r.data (recCell ..) _) _ _
        rw [hcell]
        exact h.ring.write (by omega) (by omega)
      · change Draft _ (Function.update r.data (recCell ..) _) _ _
        have hsnoc := hd.snoc (x := d.text[k]) (by omega)
        rw [htake, ← List.take_succ_eq_append_getElem hlt] at hsnoc
        rw [hcell]
        exact hsnoc
    · rw [show k = d.text.length by omega, List.take_length] at hd
      have hrd := h.draft hd
      -- the record that is published
      generalize hrec' : (⟨d, r.padding d, r.padding_fills d⟩ : Rec) = rec at hs
      have hbytes : rec.bytes = d.text ++ r.padding d := by rw [← hrec']; rfl
      have hreclen : rec.bytes.length = recLen d.payload.length := by
        rw [rec.length_bytes, ← hrec']
      have hacc : r'.accepted = r.accepted ++ [rec] := by cases hs; rfl
      have hsent : r'.sent = r.sent ++ rec.bytes := by
        rw [sent, hacc, List.flatMap_append, List.flatMap_singleton, sent]
      have hcur : r.wcur + BitVec.ofNat 32 (recLen d.payload.length) =
          BitVec.ofNat 32 r'.sent.length := by
        rw [h.wcur, hsent, List.length_append, hreclen, BitVec.ofNat_add]
      have hc := h.le'
      have ht := h.le
      have hlen' : r'.accepted.length = r.accepted.length + 1 := by
        rw [hacc, List.length_append, List.length_singleton]
      have hot := offset_append hacc (n := t) (by omega)
      have hoc := offset_append hacc hc
      have hpub : Spsc 8192 r.data r'.sent (r'.offset t) := by
        rw [hsent, hot]
        exact h.ring.publish (hbytes ▸ hrd) (by rw [hreclen]; exact hfit)
      cases hs
      exact ⟨hcur, hcur, hot ▸ h.tail, hoc ▸ h.rcur, h.le, by omega, hpub, trivial⟩

/-! ## What a reader finds -/

/-- Byte `k` of the next record. -/
theorem Books.cell (h : Books r t c) (hc : c < r.accepted.length) {k : Nat}
    (hk : k < r.accepted[c].bytes.length) :
    r.data ((r.offset c + k) % 8192) = r.accepted[c].bytes[k] := by
  have hsplit : r.sent = (r.accepted.take c).flatMap Rec.bytes ++
      (r.accepted[c].bytes ++ (r.accepted.drop (c + 1)).flatMap Rec.bytes) := by
    rw [sent, ← List.flatMap_cons, ← List.flatMap_append, ← List.drop_eq_getElem_cons hc,
      List.take_append_drop]
  have hlt : r.offset c + k < r.sent.length := by
    rw [hsplit, List.length_append, List.length_append, offset]
    omega
  have hle : r.offset t ≤ r.offset c + k := Nat.le_add_right_of_le (offset_mono h.le)
  rw [h.ring.holds _ hlt hle]
  simp only [hsplit]
  rw [List.getElem_append_right (by rw [offset]; omega), List.getElem_append_left (by
    rw [offset]; omega)]
  congr 1
  rw [offset]
  omega

/-- The reader moves on to the next record. -/
theorem Books.advance (h : Books r t c) (hc : c < r.accepted.length) :
    Books { r with
      rcur := r.rcur + BitVec.ofNat 32 (recLen r.accepted[c].dgram.payload.length) } t (c + 1) where
  head := h.head
  wcur := h.wcur
  tail := h.tail
  rcur := by
    change r.rcur + _ = BitVec.ofNat 32 (r.offset (c + 1))
    rw [h.rcur, offset_succ hc, BitVec.ofNat_add]
  le := Nat.le_succ_of_le h.le
  le' := hc
  ring := h.ring
  stored := h.stored

/-- The reader gives back what it has read. -/
theorem Books.release (h : Books r t c) : Books { r with tail := r.rcur } c c where
  head := h.head
  wcur := h.wcur
  tail := h.rcur
  rcur := h.rcur
  le := Nat.le_refl c
  le' := h.le'
  ring := by
    change Spsc 8192 r.data r.sent (r.offset c)
    obtain ⟨k, hk⟩ := Nat.exists_eq_add_of_le (offset_mono (r := r) h.le)
    have hle : r.offset c ≤ r.sent.length := offset_length r ▸ offset_mono h.le'
    rw [hk] at hle ⊢
    exact h.ring.give hle
  stored := by
    have hst := h.stored
    have hm := offset_mono (r := r) h.le
    unfold Stored at hst ⊢
    dsimp only
    cases hw : r.writer with
    | idle | called => trivial
    | writing d k =>
      rw [hw] at hst
      exact ⟨hst.1, hst.2.1.trans (Nat.add_le_add_right hm _), hst.2.2⟩

/-- A value of `head` that the reader has loaded: the end of some record from `c` on. -/
def Snap (r : DRing) (c : Nat) (head : BitVec 32) : Prop :=
  ∃ m, c ≤ m ∧ m ≤ r.accepted.length ∧ head = BitVec.ofNat 32 (r.offset m)

theorem Books.snap (h : Books r t c) : Snap r c r.head :=
  ⟨r.accepted.length, h.le', Nat.le_refl _, by rw [offset_length]; exact h.head⟩

/-- What is there between the reader and the value it has loaded. -/
theorem Books.avail (h : Books r t c) {head : BitVec 32} (hs : Snap r c head) :
    (head - r.rcur).toNat ≤ 8192 ∧
      ((head - r.rcur).toNat = 0 ∧ head = r.rcur ∨
        ∃ hc : c < r.accepted.length,
          recLen r.accepted[c].dgram.payload.length ≤ (head - r.rcur).toNat) := by
  obtain ⟨m, hcm, hm, rfl⟩ := hs
  have hmono := offset_mono (r := r) hcm
  have hend : r.offset m ≤ r.sent.length := offset_length r ▸ offset_mono hm
  have ht := offset_mono (r := r) h.le
  have hfit := h.ring.fits
  have hsub : (BitVec.ofNat 32 (r.offset m) - r.rcur).toNat = r.offset m - r.offset c := by
    rw [h.rcur]
    exact counter_sub hmono (by omega)
  rw [hsub]
  refine ⟨by omega, ?_⟩
  rcases Nat.eq_or_lt_of_le hcm with hcm | hcm
  · left
    subst hcm
    exact ⟨by omega, h.rcur.symm⟩
  · right
    have hc : c < r.accepted.length := by omega
    have hsucc := offset_succ hc
    have := offset_mono (r := r) (show c + 1 ≤ m from hcm)
    exact ⟨hc, by omega⟩

/-- A record that has not been read is in sight. -/
theorem Books.next (h : Books r t c) (hc : c < r.accepted.length) :
    (r.head - r.rcur).toNat ≤ 8192 ∧ 8 ≤ (r.head - r.rcur).toNat := by
  have hsub : (r.head - r.rcur).toNat = r.sent.length - r.offset c := by
    have hmono := offset_mono (r := r) h.le
    have hend : r.offset c ≤ r.sent.length := offset_length r ▸ offset_mono h.le'
    have hfit := h.ring.fits
    rw [h.head, h.rcur]
    exact counter_sub hend (by omega)
  have hend : r.offset (c + 1) ≤ r.sent.length := offset_length r ▸ offset_mono hc
  have hrec := le_recLen r.accepted[c].dgram.payload.length
  rw [offset_succ hc] at hend
  exact ⟨(h.avail h.snap).1, by omega⟩

/-- A value that was ahead of the reader is still that of some record once it has moved on. -/
theorem Books.snap_advance (h : Books r t c) {head : BitVec 32} (hs : Snap r c head)
    (hne : (head - r.rcur).toNat ≠ 0) : Snap r (c + 1) head := by
  obtain ⟨m, hcm, hm, rfl⟩ := hs
  refine ⟨m, ?_, hm, rfl⟩
  rcases Nat.eq_or_lt_of_le hcm with rfl | hlt
  · rw [h.rcur, BitVec.sub_self] at hne
    exact absurd rfl hne
  · exact hlt

/-- In the middle of record `c`, with `head` loaded when the record was there. -/
structure AtRec (r : DRing) (c : Nat) (head : BitVec 32) : Prop where
  snap : Snap r c head
  some : 8 ≤ (head - r.rcur).toNat

theorem Books.atRec (h : Books r t c) {head : BitVec 32} (ha : AtRec r c head) :
    ∃ hc : c < r.accepted.length,
      recLen r.accepted[c].dgram.payload.length ≤ (head - r.rcur).toNat := by
  obtain ⟨-, ⟨h0, -⟩ | hc⟩ := h.avail ha.snap
  · have := ha.some
    omega
  · exact hc

/-- The first bytes of the header of record `c`. -/
def ReadHdr (r : DRing) (c : Nat) (got : List Byte) : Prop :=
  ∃ hc : c < r.accepted.length, got <+: r.accepted[c].dgram.hdr.bytes

/-- The first bytes of its payload. -/
def ReadPay (r : DRing) (c : Nat) (got : List Byte) : Prop :=
  ∃ hc : c < r.accepted.length, got <+: r.accepted[c].dgram.payload

/-- The next byte of the header. -/
theorem Books.readHdr (h : Books r t c) (hr : ReadHdr r c got)
    (hlt : got.length < 8) :
    ReadHdr r c (got ++ [r.data (ShmRing.cell sockRingSize r.rcur 8 got.length)]) := by
  obtain ⟨hc, hp⟩ := hr
  have hcell : ShmRing.cell sockRingSize r.rcur 8 got.length =
      (r.offset c + got.length) % 8192 := by
    rw [h.rcur]
    exact ShmRing.cell_eq (w := 13) (by decide) _ (by decide) hlt
  have hlen : got.length < r.accepted[c].bytes.length := by
    have := le_recLen r.accepted[c].dgram.payload.length
    rw [Rec.length_bytes]
    omega
  have hbyte : r.accepted[c].bytes[got.length] =
      r.accepted[c].dgram.hdr.bytes[got.length] := by
    simp only [Rec.bytes, Dgram.text, List.append_assoc]
    exact List.getElem_append_left _
  refine ⟨hc, ?_⟩
  rw [hcell, h.cell hc hlen, hbyte]
  exact prefix_snoc hp hlt

/-- The whole header. -/
theorem ReadHdr.decode (hr : ReadHdr r c got) (hlen : ¬ got.length < 8) :
    ∃ hc : c < r.accepted.length, Hdr.decode got = r.accepted[c].dgram.hdr := by
  obtain ⟨hc, hp⟩ := hr
  have hle := hp.length_le
  rw [Hdr.length_bytes] at hle
  refine ⟨hc, ?_⟩
  rw [hp.eq_of_length (by rw [Hdr.length_bytes]; omega), Hdr.decode_bytes]

/-- The next byte of the payload, of which `n` bytes are read. -/
theorem Books.readPay (h : Books r t c) (hr : ReadPay r c got)
    (hn : ∀ hc : c < r.accepted.length, n ≤ r.accepted[c].dgram.payload.length)
    (hlt : got.length < n) :
    ReadPay r c (got ++ [r.data (ShmRing.cell sockRingSize (r.rcur + 8) n got.length)]) := by
  obtain ⟨hc, hp⟩ := hr
  have hnc := hn hc
  have hrec := le_recLen r.accepted[c].dgram.payload.length
  have hfit := h.ring.fits
  have hend : r.offset (c + 1) ≤ r.sent.length := offset_length r ▸ offset_mono hc
  have hmono := offset_mono (r := r) h.le
  rw [offset_succ hc] at hend
  have hcell : ShmRing.cell sockRingSize (r.rcur + 8) n got.length =
      (r.offset c + (8 + got.length)) % 8192 := by
    have hpos : r.rcur + 8 = BitVec.ofNat 32 (r.offset c + 8) := by
      rw [h.rcur, BitVec.ofNat_add]
      rfl
    have hce := ShmRing.cell_eq (w := 13) (by decide) (r.offset c + 8) (n := n)
      (show n ≤ 2 ^ 13 by omega) hlt
    rw [hpos]
    refine hce.trans ?_
    rw [Nat.add_assoc]
    rfl
  have hlen : 8 + got.length < r.accepted[c].bytes.length := by
    rw [Rec.length_bytes]
    omega
  have hbyte : r.accepted[c].bytes[8 + got.length] =
      r.accepted[c].dgram.payload[got.length] := by
    simp only [Rec.bytes, Dgram.text, List.append_assoc]
    rw [List.getElem_append_right (by rw [Hdr.length_bytes]; omega)]
    simp only [Hdr.length_bytes, Nat.add_sub_cancel_left]
    exact List.getElem_append_left _
  refine ⟨hc, ?_⟩
  rw [hcell, h.cell hc hlen, hbyte]
  exact prefix_snoc hp (by omega)

/-! ## The writer goes on -/

/-- More records may have come, and the reader's cursor is where it was. -/
structure Grows (r r' : DRing) : Prop where
  rcur : r'.rcur = r.rcur
  more : ∃ more, r'.accepted = r.accepted ++ more

theorem Grows.of_eq (hr : r'.rcur = r.rcur) (ha : r'.accepted = r.accepted) : Grows r r' :=
  ⟨hr, [], by rw [ha, List.append_nil]⟩

theorem Grows.getElem (hg : Grows r r') (hc : c < r.accepted.length) :
    ∃ hc' : c < r'.accepted.length, r'.accepted[c] = r.accepted[c] := by
  obtain ⟨more, hm⟩ := hg.more
  have hc' : c < r'.accepted.length := by
    rw [hm, List.length_append]
    omega
  refine ⟨hc', ?_⟩
  simp only [hm]
  exact List.getElem_append_left hc

theorem Snap.grows {head : BitVec 32} (h : Snap r c head) (hg : Grows r r') :
    Snap r' c head := by
  obtain ⟨m, h1, h2, h3⟩ := h
  obtain ⟨more, hm⟩ := hg.more
  refine ⟨m, h1, ?_, by rw [offset_append hm h2]; exact h3⟩
  rw [hm, List.length_append]
  omega

theorem AtRec.grows {head : BitVec 32} (h : AtRec r c head) (hg : Grows r r') :
    AtRec r' c head :=
  ⟨h.snap.grows hg, by rw [hg.rcur]; exact h.some⟩

theorem ReadHdr.grows (h : ReadHdr r c got) (hg : Grows r r') :
    ReadHdr r' c got := by
  obtain ⟨hc, hp⟩ := h
  obtain ⟨hc', he⟩ := hg.getElem hc
  exact ⟨hc', he ▸ hp⟩

theorem ReadPay.grows (h : ReadPay r c got) (hg : Grows r r') :
    ReadPay r' c got := by
  obtain ⟨hc, hp⟩ := h
  obtain ⟨hc', he⟩ := hg.getElem hc
  exact ⟨hc', he ▸ hp⟩

/-- No record and no datagram under way is longer than the readers take. -/
def Short (r : DRing) : Prop :=
  (∀ rec ∈ r.accepted, rec.dgram.payload.length ≤ sockDgramMax) ∧
    match r.writer with
    | .idle => True
    | .called d | .writing d _ => d.payload.length ≤ sockDgramMax

/-- A step of the writer. -/
theorem write_keeps (hs : r.write = some r') : Grows r r' ∧ (Short r → Short r') := by
  unfold DRing.write at hs
  unfold Short
  cases hw : r.writer with
  | idle =>
    rw [hw] at hs
    cases hs
  | called d =>
    rw [hw] at hs
    dsimp only at hs
    split at hs <;> cases hs
    · exact ⟨.of_eq rfl rfl, fun h => ⟨h.1, trivial⟩⟩
    · exact ⟨.of_eq rfl rfl, id⟩
  | writing d k =>
    rw [hw] at hs
    dsimp only at hs
    split at hs <;> cases hs
    · exact ⟨.of_eq rfl rfl, id⟩
    · refine ⟨⟨rfl, _, rfl⟩, fun h => ⟨fun rec hrec => ?_, trivial⟩⟩
      rcases List.mem_append.mp hrec with hrec | hrec
      · exact h.1 rec hrec
      · rw [List.mem_singleton.mp hrec]
        exact h.2

theorem Short.len (h : Short r) (hc : c < r.accepted.length) :
    r.accepted[c].dgram.hdr.len.toNat = r.accepted[c].dgram.payload.length ∧
      r.accepted[c].dgram.payload.length ≤ sockDgramMax :=
  ⟨Dgram.hdr_len _, h.1 _ (List.getElem_mem hc)⟩

end DRing
end Zuzu.L6User
