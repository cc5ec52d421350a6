import Zuzu.L5Net.Arp

/-!
# The Internet checksum and the IPv4 receive filter (`netd/net/ip.c`)

`csum` is the plain sum of the big-endian words of a region. `InetCsumPartial` keeps it in 32 bits
and `InetCsumFold` reduces it modulo `2 ^ 16 - 1` without ever making a positive sum 0, so that a
region verifies when its sum is a positive multiple of `2 ^ 16 - 1`.

**Results.** `inetChecksum_eq_zero_iff`: when a region verifies. `ipRx_passes_iff`: which packets
are passed on, and with which payload. `ipRx_filters_iff`: they are valid unless IHL, which is not
tested, is below 5.
Paths are relative to `user/services/`.
-/
namespace Zuzu.L5.Ip
open Link

/-! ## The checksum -/

/-- mirrors netd/net/ip.c:18-29 -/
def inetCsumPartial : List Byte → BitVec 32 → BitVec 32
  | a :: b :: data, accum =>
    inetCsumPartial data (accum + (a.setWidth 32 <<< 8 ||| b.setWidth 32))
  | [a], accum => accum + a.setWidth 32 <<< 8
  | [], accum => accum

/-- At most `n` turns of the loop of `InetCsumFold`. -/
def foldTurns : Nat → BitVec 32 → BitVec 32
  | 0, accum => accum
  | n + 1, accum =>
    if accum >>> 16 ≠ 0#32 then foldTurns n ((accum &&& 0xFFFF#32) + accum >>> 16) else accum

/-- The loop ends after two turns (`foldTurns_two`). mirrors netd/net/ip.c:32-38 -/
def inetCsumFold (accum : BitVec 32) : BitVec 16 := ~~~(foldTurns 2 accum).setWidth 16

/-- mirrors netd/net/ip.c:40-43 -/
def inetChecksum (data : List Byte) : BitVec 16 := inetCsumFold (inetCsumPartial data 0#32)

/-- The sum of the words; a last byte is the upper half of one. -/
def csum : List Byte → Nat
  | a :: b :: data => a.toNat * 256 + b.toNat + csum data
  | [a] => a.toNat * 256
  | [] => 0

theorem word_toNat (a b : Byte) :
    (a.setWidth 32 <<< 8 ||| b.setWidth 32).toNat = a.toNat * 256 + b.toNat := by
  have ha := a.isLt
  have hb := b.isLt
  have ha' : (a.setWidth 32 <<< 8).toNat = a.toNat <<< 8 := by
    simp only [BitVec.toNat_shiftLeft, BitVec.toNat_setWidth, Nat.shiftLeft_eq]
    omega
  have hb' : (b.setWidth 32).toNat = b.toNat := by
    rw [BitVec.toNat_setWidth]
    omega
  rw [BitVec.toNat_or, ha', hb', ← Nat.shiftLeft_add_eq_or_of_lt hb, Nat.shiftLeft_eq]

theorem inetCsumPartial_toNat (data : List Byte) (accum : BitVec 32) :
    (inetCsumPartial data accum).toNat = (accum.toNat + csum data) % 2 ^ 32 := by
  fun_induction inetCsumPartial data accum with
  | case1 a b data accum ih =>
    rw [ih, BitVec.toNat_add, word_toNat, csum]
    omega
  | case2 a accum =>
    have h := word_toNat a 0#8
    rw [BitVec.setWidth_zero, BitVec.or_zero] at h
    rw [BitVec.toNat_add, h, csum, BitVec.toNat_ofNat, Nat.zero_mod, Nat.add_zero]
  | case3 accum => exact (Nat.mod_eq_of_lt accum.isLt).symm

theorem csum_le (data : List Byte) : csum data ≤ 65535 * data.length := by
  fun_induction csum data with
  | case1 a b data ih =>
    have ha := a.isLt
    have hb := b.isLt
    simp only [List.length_cons]
    omega
  | case2 a =>
    have ha := a.isLt
    simp only [List.length_cons, List.length_nil]
    omega
  | case3 => exact Nat.zero_le _

/-- One turn keeps the sum modulo `2 ^ 16 - 1`, and does not make a positive sum 0. -/
theorem turn_toNat (a : BitVec 32) : ((a &&& 0xFFFF#32) + a >>> 16).toNat =
    a.toNat % 65536 + a.toNat / 65536 := by
  have h : (a &&& 0xFFFF#32).toNat = a.toNat % 65536 := by
    rw [BitVec.toNat_and]
    exact Nat.and_two_pow_sub_one_eq_mod _ 16
  have ha := a.isLt
  rw [BitVec.toNat_add, h, BitVec.toNat_ushiftRight, Nat.shiftRight_eq_div_pow]
  omega

theorem foldTurns_two (a : BitVec 32) : (foldTurns 2 a).toNat < 65536 ∧
    (foldTurns 2 a).toNat % 65535 = a.toNat % 65535 ∧
    (0 < (foldTurns 2 a).toNat ↔ 0 < a.toNat) := by
  have ha := a.isLt
  have hhi : ∀ b : BitVec 32, b >>> 16 ≠ 0#32 ↔ 65536 ≤ b.toNat := by
    intro b
    rw [Ne, BitVec.toNat_eq, BitVec.toNat_ushiftRight, Nat.shiftRight_eq_div_pow,
      BitVec.toNat_ofNat]
    omega
  simp only [foldTurns]
  split
  · rename_i h
    have h1 := turn_toNat a
    generalize (a &&& 0xFFFF#32) + a >>> 16 = b at h1 ⊢
    rw [hhi] at h
    split
    · rename_i h'
      rw [hhi] at h'
      rw [turn_toNat]
      omega
    · rename_i h'
      rw [hhi] at h'
      omega
  · rename_i h
    rw [hhi] at h
    omega

theorem inetCsumFold_eq_zero_iff (a : BitVec 32) :
    inetCsumFold a = 0#16 ↔ 0 < a.toNat ∧ a.toNat % 65535 = 0 := by
  obtain ⟨hlt, hmod, hpos⟩ := foldTurns_two a
  unfold inetCsumFold
  rw [BitVec.toNat_eq, BitVec.toNat_not, BitVec.toNat_setWidth, Nat.mod_eq_of_lt hlt,
    BitVec.toNat_ofNat]
  omega

/-- A region verifies when its sum is a positive multiple of `2 ^ 16 - 1`. -/
theorem inetChecksum_eq_zero_iff {data : List Byte} (h : data.length ≤ 65535) :
    inetChecksum data = 0#16 ↔ 0 < csum data ∧ csum data % 65535 = 0 := by
  have hle := csum_le data
  have hsum : (inetCsumPartial data 0#32).toNat = csum data := by
    rw [inetCsumPartial_toNat, BitVec.toNat_ofNat]
    omega
  rw [inetChecksum, inetCsumFold_eq_zero_iff, hsum]

/-! ## Packets -/

variable (netif : Netif) (data : List Byte) (mac : MacAddr)

/-- mirrors netd/net/ip.c:54 -/
def hdrLen : Nat := (data.getD 0 0 &&& 0x0F).toNat * 4

/-- mirrors netd/net/ip.h:9-20 -/
def totalLength : Nat := (net16 data 2).toNat
def flagsFragmentOffset : BitVec 16 := net16 data 6
def protocol : Byte := data.getD 9 0
def srcIp : Ipv4Addr := raw32 data 12
def dstIp : Ipv4Addr := raw32 data 16

/-- What `IpRx` calls. -/
inductive IpCall
  | arpLearn (ip : Ipv4Addr) (mac : MacAddr)
  | icmpRx (payload : List Byte) (src : Ipv4Addr)
  | udpRecv (payload : List Byte) (src dst : Ipv4Addr)
  | tcpRx (src dst : Ipv4Addr) (payload : List Byte)
  deriving DecidableEq

/-- The payload that is passed to a protocol. -/
def IpCall.payload : IpCall → Option (List Byte)
  | .arpLearn .. => none
  | .icmpRx p _ | .udpRecv p .. | .tcpRx _ _ p => some p

/-- The bytes from `data + hdr_len` on, `payload_len` of them. mirrors netd/net/ip.c:75-76 -/
def body : List Byte := (data.drop (hdrLen data)).take (totalLength data - hdrLen data)

/-- mirrors netd/net/ip.c:77-89 -/
def dispatch : List IpCall :=
  if protocol data = 1 then [.icmpRx (body data) (srcIp data)]
  else if protocol data = 17 then [.udpRecv (body data) (srcIp data) (dstIp data)]
  else if protocol data = 6 then [.tcpRx (srcIp data) (dstIp data) (body data)]
  else []

/-- `data` has the `len` bytes that were received. mirrors netd/net/ip.c:45-90 -/
def ipRx : List IpCall :=
  if data.length < 20 then []
  else if data.getD 0 0 &&& 0xF0 ≠ 0x40 then []
  else if data.length < hdrLen data ∨ totalLength data < hdrLen data ∨
      data.length < totalLength data then []
  else if inetChecksum (data.take (hdrLen data)) ≠ 0#16 ∨
      dstIp data ≠ netif.ip ∧ dstIp data ≠ broadcastIp then []
  else
    .arpLearn (srcIp data) mac ::
      if flagsFragmentOffset data &&& 0x2000 ≠ 0 ∨ flagsFragmentOffset data &&& 0x1FFF ≠ 0 then []
      else dispatch data

/-! ## The filter -/

/-- The words of the header add up to all ones, in one's complement. -/
def Verifies : Prop :=
  0 < csum (data.take (hdrLen data)) ∧ csum (data.take (hdrLen data)) % 65535 = 0

/-- The tests that are made, as they bear on the bytes of the packet. -/
structure Passes : Prop where
  received : 20 ≤ data.length
  version : data.getD 0 0 &&& 0xF0 = 0x40
  lower : hdrLen data ≤ totalLength data
  upper : totalLength data ≤ data.length
  verifies : Verifies data
  addressed : dstIp data = netif.ip ∨ dstIp data = broadcastIp
  whole : flagsFragmentOffset data &&& 0x2000 = 0 ∧ flagsFragmentOffset data &&& 0x1FFF = 0
  known : protocol data = 1 ∨ protocol data = 17 ∨ protocol data = 6

theorem hdrLen_le : hdrLen data ≤ 60 := by
  have h : (data.getD 0 0 &&& 0x0F).toNat ≤ 15 := by
    rw [BitVec.toNat_and]
    exact Nat.and_le_right
  unfold hdrLen
  omega

theorem checksum_take_iff : inetChecksum (data.take (hdrLen data)) = 0#16 ↔ Verifies data := by
  apply inetChecksum_eq_zero_iff
  have h := hdrLen_le data
  rw [List.length_take]
  omega

theorem mem_dispatch_iff {p : List Byte} : (∃ c ∈ dispatch data, c.payload = some p) ↔
    (protocol data = 1 ∨ protocol data = 17 ∨ protocol data = 6) ∧ body data = p := by
  unfold dispatch
  split
  · simp [IpCall.payload, *]
  · split
    · simp [IpCall.payload, *]
    · split
      · simp [IpCall.payload, *]
      · simp only [List.not_mem_nil, false_and, exists_false, *, or_self]

theorem no_call {P Q : Prop} {p : List Byte} (h : ¬P) :
    (∃ c ∈ ([] : List IpCall), c.payload = some p) ↔ P ∧ Q := by
  simp [h]

/-- The payloads that are passed on are the bodies of the packets that pass the tests. -/
theorem ipRx_passes_iff {p : List Byte} :
    (∃ c ∈ ipRx netif data mac, c.payload = some p) ↔ Passes netif data ∧ body data = p := by
  have hcs := checksum_take_iff data
  unfold ipRx
  split
  · rename_i h
    exact no_call fun hp => absurd hp.received (Nat.not_le.mpr h)
  split
  · rename_i h
    exact no_call fun hp => h hp.version
  split
  · rename_i h
    refine no_call fun hp => ?_
    have hl := hp.lower
    have hu := hp.upper
    omega
  split
  · rename_i h
    refine no_call fun hp => ?_
    rcases h with h | h
    · exact h (hcs.mpr hp.verifies)
    · exact hp.addressed.elim h.1 h.2
  rename_i h1 h2 h3 h4
  rw [not_or, not_and_or, not_not, not_not, not_not] at h4
  simp only [List.mem_cons, exists_eq_or_imp, show (IpCall.arpLearn (srcIp data) mac).payload = none
    from rfl, reduceCtorEq, false_or]
  split
  · rename_i h
    exact no_call fun hp => h.elim (fun h => h hp.whole.1) fun h => h hp.whole.2
  · rename_i h5
    rw [mem_dispatch_iff]
    refine and_congr_left fun _ => ⟨fun h => ?_, fun h => h.known⟩
    rw [not_or, not_not, not_not] at h5
    exact ⟨by omega, not_not.mp h2, by omega, by omega, hcs.mp h4.1, h4.2, h5, h⟩

/-- A payload is what follows the header of a valid packet. -/
structure Filtered (p : List Byte) : Prop where
  header : 20 ≤ hdrLen data
  verifies : Verifies data
  lower : hdrLen data ≤ totalLength data
  upper : totalLength data ≤ data.length
  payload : p = (data.take (totalLength data)).drop (hdrLen data)

/-- **The filter.** Only valid packets are passed on, exactly if the header is not one of fewer
than 20 bytes in a packet that passes every other test. -/
theorem ipRx_filters_iff : (∀ c ∈ ipRx netif data mac, ∀ p, c.payload = some p → Filtered data p) ↔
    20 ≤ hdrLen data ∨ ¬Passes netif data := by
  constructor
  · intro h
    rw [or_iff_not_imp_right, not_not]
    intro hp
    obtain ⟨c, hc, hb⟩ := (ipRx_passes_iff netif data mac).mpr ⟨hp, rfl⟩
    exact (h c hc _ hb).header
  · intro h c hc p hcp
    obtain ⟨hp, hb⟩ := (ipRx_passes_iff netif data mac).mp ⟨c, hc, hcp⟩
    refine ⟨h.resolve_right (not_not_intro hp), hp.verifies, hp.lower, hp.upper, ?_⟩
    rw [← hb, body, List.drop_take]

/-- A datagram with IHL 2. Its header of eight bytes adds up to all ones, and the rest of the 20
bytes, protocol and addresses included, is passed to `UdpRecv` as its payload. -/
def shortHeader : List Byte :=
  [0x42, 0, 0, 20, 0xBD, 0xEB, 0, 0, 64, 17, 0, 0, 10, 0, 0, 1, 10, 0, 0, 2]

theorem short_header_passes : ∃ netif mac, hdrLen shortHeader = 8 ∧
    .udpRecv (shortHeader.drop 8) 0x100000A 0x200000A ∈ ipRx netif shortHeader mac :=
  ⟨⟨0x200000A, 0, 0, 0, []⟩, 0, by decide, by decide⟩

end Zuzu.L5.Ip
