import Zuzu.L5Net.TcpActs
import Zuzu.L5Net.TcpReassembly

/-!
# The sending side over plain positions

As for the receiving side, sequence numbers are named by natural numbers: position `n`
has the number `fwd b n`, and everything in use at one time is less than half a turn apart.

**Results.** `Snd.At` says where the sending side stands: what is acknowledged, what is sent
next, what was sent at most and what is buffered, in this order. One lemma for
each operation says where it stands afterwards. An ACK is taken for a position in flight
unless nothing is in flight and it is half a turn ahead (`At.acked`): the two comparisons of
`TcpProcessAck` cannot tell that one.
-/
namespace Zuzu.L5
open Zuzu.Core Serial

namespace Snd

/-- Everything before `u` is acknowledged, `x` is sent next, nothing from `m` on was ever sent. -/
structure At (b : Seq) (u x m : Nat) (s : Snd) : Prop where
  una : s.una = fwd b u
  nxt : s.nxt = fwd b x
  max : s.max = fwd b m
  una_nxt : u ≤ x
  nxt_max : x ≤ m
  max_end : m ≤ u + s.buffered + 1
  room : s.buffered ≤ tcpSndBuf
  size : s.size = tcpSndBuf
  wnd : s.wnd < 2 ^ 16
  recover : s.inRecovery → ∃ r, s.recover = fwd b r ∧ u < r ∧ r ≤ m

variable {b : Seq} {u x m n : Nat} {s : Snd}

theorem At.dataEnd (h : At b u x m s) : s.dataEnd = fwd b (u + s.buffered) := by
  unfold Snd.dataEnd
  rw [h.una, seqAdd_fwd]

/-- How far the numbers in use reach. -/
theorem At.reach (h : At b u x m s) :
    m ≤ u + 32769 ∧ s.buffered ≤ 32768 ∧ u ≤ x ∧ x ≤ m := by
  have h1 := h.max_end
  have h2 := h.room
  have h3 : tcpSndBuf = 32768 := rfl
  exact ⟨by omega, h2, h.una_nxt, h.nxt_max⟩

/-- The positions as distances from `snd_una`. -/
theorem At.dist (h : At b u x m s) :
    Serial.dist s.una s.nxt = x - u ∧ Serial.dist s.una s.max = m - u := by
  obtain ⟨h1, h2, h3, h4⟩ := h.reach
  rw [h.una, h.nxt, h.max]
  exact ⟨dist_fwd h3 (by omega), dist_fwd (by omega) (by omega)⟩

theorem At.max_ne (h : At b u x m s) : s.max ≠ s.una ↔ u < m := by
  obtain ⟨h1, h2, h3, h4⟩ := h.reach
  rw [h.una, h.max, Ne, eq_fwd (by omega) (by omega)]
  omega

/-- Something is in flight whenever the head of the ring is sent again. -/
theorem At.in_flight (h : At b u x m s)
    (hg : s.max ≠ s.una ∨ (s.inRecovery ∧ ¬seqLeq s.recover s.una)) : u < m := by
  rcases hg with hg | ⟨hrec, -⟩
  · exact h.max_ne.mp hg
  · obtain ⟨r, -, h1, h2⟩ := h.recover hrec
    omega

/-- Fields that the positions do not depend on; `recover` matters in recovery only. -/
theorem At.congr {s' : Snd} (h : At b u x m s) (h1 : s'.una = s.una) (h2 : s'.nxt = s.nxt)
    (h3 : s'.max = s.max) (h4 : s'.buffered = s.buffered) (h5 : s'.size = s.size)
    (h6 : s'.wnd < 2 ^ 16) (h7 : s.inRecovery = false ∨ s'.recover = s.recover)
    (h8 : s'.inRecovery = s.inRecovery) : At b u x m s' := by
  refine ⟨h1 ▸ h.una, h2 ▸ h.nxt, h3 ▸ h.max, h.una_nxt, h.nxt_max, h4 ▸ h.max_end, h4 ▸ h.room,
    h5 ▸ h.size, h6, fun hr => ?_⟩
  rw [h8] at hr
  rcases h7 with h7 | h7
  · rw [h7] at hr
    cases hr
  · rw [h7]
    exact h.recover hr

section
variable (h : At b u x m s)
include h

/-- `n` numbers are sent. -/
theorem At.advance (hn : x + n ≤ u + s.buffered + 1) :
    At b u (x + n) (Max.max m (x + n)) (s.advance n) := by
  obtain ⟨h1, h2, h3, h4⟩ := h.reach
  have h5 := h.max_end
  have hnxt : seqAdd s.nxt n = fwd b (x + n) := by rw [h.nxt, seqAdd_fwd]
  have hmax : (if seqLt s.max (seqAdd s.nxt n) then seqAdd s.nxt n else s.max) =
      fwd b (Max.max m (x + n)) := by
    rw [hnxt, h.max]
    exact seqMax_fwd (by omega) (by omega)
  refine ⟨h.una, hnxt, hmax, by omega, le_max_right _ _, max_le h5 hn, h.room, h.size, h.wnd, ?_⟩
  intro hrec
  obtain ⟨r, hr, h6, h7⟩ := h.recover hrec
  exact ⟨r, hr, h6, by omega⟩

/-- Nothing is sent, with or without an effect on `snd_nxt`. -/
theorem At.advance_zero : At b u x m (s.advance 0) := by
  have h2 := h.nxt_max
  have h3 := h.max_end
  have := h.advance (n := 0) (by omega)
  rwa [Nat.add_zero, max_eq_left h2] at this

theorem At.rewind : At b u u m { s with nxt := s.una } :=
  ⟨h.una, h.una, h.max, le_refl _, h.una_nxt.trans h.nxt_max, h.max_end, h.room, h.size, h.wnd,
    h.recover⟩

/-- `n` numbers are sent from `snd_una` on, and `snd_nxt` is put back. -/
theorem At.resend (hn : n ≤ s.buffered + 1) :
    At b u x (Max.max m (u + n)) { ({ s with nxt := s.una } : Snd).advance n with nxt := s.nxt } := by
  have h1 := h.rewind.advance (n := n) (by simp only; omega)
  exact ⟨h1.una, h.nxt, h1.max, h.una_nxt, h.nxt_max.trans (le_max_left _ _), h1.max_end, h1.room,
    h1.size, h1.wnd, h1.recover⟩

/-- A segment without text goes out from below `snd_una`. -/
theorem At.probe :
    At b u x m { ({ s with nxt := s.una - 1 } : Snd).advance 0 with nxt := s.nxt } := by
  obtain ⟨h1, h2, h3, h4⟩ := h.reach
  have hback : ∀ k, fwd b k = fwd (b - 1) (k + 1) := by
    intro k
    apply BitVec.eq_of_toNat_eq
    simp [fwd, BitVec.toNat_sub, BitVec.toNat_add]
    omega
  have hno : ¬seqLt s.max (seqAdd (s.una - 1) 0) := by
    have hprev : seqAdd (s.una - 1) 0 = fwd (b - 1) u := by
      rw [h.una, hback u, ← seqAdd_fwd]
      simp [seqAdd]
    rw [hprev, h.max, hback m, seqLt_fwd (by omega) (by omega)]
    omega
  have hmax : (if seqLt s.max (seqAdd (s.una - 1) 0) then seqAdd (s.una - 1) 0 else s.max) =
      fwd b m := by
    rw [if_neg hno, h.max]
  exact ⟨h.una, h.nxt, hmax, h3, h4, h.max_end, h.room, h.size, h.wnd, h.recover⟩

theorem At.setRecover (r : Bool) (hne : s.max ≠ s.una) :
    At b u x m { s with recover := s.max, inRecovery := r } :=
  ⟨h.una, h.nxt, h.max, h.una_nxt, h.nxt_max, h.max_end, h.room, h.size, h.wnd,
    fun _ => ⟨m, h.max, h.max_ne.mp hne, le_refl _⟩⟩

theorem At.enqueue {data : List Byte}
    (hlen : data.length ≤ s.size - s.buffered) : At b u x m (s.enqueue data) := by
  have h1 := h.room
  have h2 := h.max_end
  rw [h.size] at hlen
  refine ⟨h.una, h.nxt, h.max, h.una_nxt, h.nxt_max, ?_, ?_, h.size, h.wnd, h.recover⟩
  · change m ≤ u + (s.buffered + data.length) + 1
    omega
  · change s.buffered + data.length ≤ tcpSndBuf
    omega

/-- **The ACKs that are taken.** The two comparisons admit the positions in flight; with
nothing in flight they admit the number half a turn ahead as well. -/
theorem At.ack_pos {ack : Seq} (hlt : seqLt s.una ack)
    (hle : seqLeq ack s.max) (hwild : s.max = s.una → ack ≠ fwd s.una (2 ^ 31)) :
    ∃ a, ack = fwd b a ∧ u < a ∧ a ≤ m := by
  obtain ⟨h1, h2, h3, h4⟩ := h.reach
  obtain ⟨hd, hd'⟩ := (lt_iff _ _).mp hlt
  obtain ⟨d, hdd⟩ : ∃ d, d = Serial.dist s.una ack := ⟨_, rfl⟩
  rw [← hdd] at hd hd'
  have hack : ack = fwd b (u + d) := by
    rw [← fwd_fwd, ← h.una, hdd, fwd_dist]
  refine ⟨u + d, hack, by omega, ?_⟩
  by_contra hgt
  replace hle := (le_iff _ _).mp hle
  rw [hack, h.max, dist_fwd_back (by omega) (by omega)] at hle
  refine hwild ?_ ?_
  · rw [h.max, h.una]
    exact congrArg (fwd b) (by omega)
  · rw [hack, h.una, fwd_fwd]
    exact congrArg (fwd b) (by omega)

theorem At.acked {a : Nat} (hlt : u < a) (hle : a ≤ m) :
    At b a (Max.max x a) m (s.acked (fwd b a)) ∧
      (s.acked (fwd b a)).buffered = s.buffered - (a - u) := by
  obtain ⟨h1, h2, h3, h4⟩ := h.reach
  have h5 := h.max_end
  have h6 := h.room
  have hbuf : (s.acked (fwd b a)).buffered = s.buffered - (a - u) := by
    change s.buffered - min (fwd b a - s.una).toNat s.buffered = _
    rw [h.una, toNat_fwd_sub hlt.le (by omega)]
    omega
  have hnxt : (if seqLt s.nxt (fwd b a) then fwd b a else s.nxt) = fwd b (Max.max x a) := by
    rw [h.nxt]
    exact seqMax_fwd (by omega) (by omega)
  refine ⟨⟨rfl, hnxt, h.max, le_max_right _ _, max_le h4 hle, by omega, by omega, h.size, h.wnd, ?_⟩,
    hbuf⟩
  intro hrec
  replace hrec : (s.inRecovery && !seqLeq s.recover (fwd b a)) = true := hrec
  rw [Bool.and_eq_true, Bool.not_eq_true'] at hrec
  obtain ⟨r, hr, h7, h8⟩ := h.recover hrec.1
  refine ⟨r, hr, ?_, h8⟩
  by_contra hge
  have := hrec.2
  rw [hr, (seqLeq_fwd (by omega) (by omega)).mpr (by omega)] at this
  cases this

end

/-! ## Opening -/

/-- A block that has drawn its initial sequence number. -/
theorem At.drawn {isn : Seq} (h1 : s.una = isn) (h2 : s.nxt = isn) (h3 : s.max = isn)
    (h4 : s.buffered = 0) (h5 : s.size = tcpSndBuf) (h6 : s.wnd < 2 ^ 16)
    (h7 : s.inRecovery = false) : At isn 0 0 0 s where
  una := by rw [h1, fwd_zero]
  nxt := by rw [h2, fwd_zero]
  max := by rw [h3, fwd_zero]
  una_nxt := le_refl _
  nxt_max := le_refl _
  max_end := Nat.zero_le _
  room := by omega
  size := h5
  wnd := h6
  recover := fun hr => by rw [h7] at hr; cases hr

/-- The SYN is acknowledged. -/
theorem At.synAcked (h : At b 0 x m s) (hb : s.buffered = 0) (hne : s.nxt ≠ s.una)
    (hcalm : s.inRecovery = false) : At b 1 1 1 { s with una := s.nxt } := by
  have h1 := h.nxt_max
  have h2 := h.max_end
  have hx : x ≠ 0 := by
    rintro rfl
    exact hne (h.nxt.trans h.una.symm)
  obtain rfl : x = 1 := by omega
  obtain rfl : m = 1 := by omega
  exact ⟨h.nxt, h.nxt, h.max, le_refl _, le_refl _, by omega, h.room, h.size, h.wnd, fun hr => by
    rw [hcalm] at hr
    cases hr⟩

theorem consumeMss_eq (s : Snd) (seg : Segment) :
    s.consumeMss seg = { s with mss := (s.consumeMss seg).mss } := by
  unfold Snd.consumeMss
  split <;> rfl

theorem consumeMss_numbers (s : Snd) (seg : Segment) : (s.consumeMss seg).nxt = s.nxt ∧
    (s.consumeMss seg).una = s.una ∧ (s.consumeMss seg).wnd = s.wnd := by
  rw [consumeMss_eq]
  exact ⟨rfl, rfl, rfl⟩

/-! ## What is sent -/

/-- A round of the transmit loop sends text that is buffered and fits in the peer's window. -/
theorem At.plan (h : At b u x m s) {len : Nat} {fin : Bool} (hp : s.plan = some (len, fin)) :
    0 < len ∧ x + len ≤ u + s.buffered ∧ x + len ≤ u + s.wnd ∧ len ≤ s.mss ∧
      (fin ↔ s.finPending ∧ x + len = u + s.buffered) := by
  obtain ⟨h1, h2, h3, h4⟩ := h.reach
  have h5 := h.wnd
  have hedge : seqAdd s.una (min s.wnd s.cwnd) = fwd b (u + min s.wnd s.cwnd) := by
    rw [h.una, seqAdd_fwd]
  unfold Snd.plan at hp
  rw [hedge, h.dataEnd, h.nxt] at hp
  split at hp
  · cases hp
  · rename_i hend
    rw [seqLeq_fwd (by omega) (by omega)] at hend
    dsimp only at hp
    split at hp
    · cases hp
    · rename_i hwin
      rw [seqLeq_fwd (by omega) (by omega)] at hwin
      rw [toNat_fwd_sub (by omega) (by omega), toNat_fwd_sub (by omega) (by omega)] at hp
      split at hp
      · cases hp
      · split at hp
        · cases hp
        · rename_i hpos
          obtain ⟨hlen, hfin⟩ := Prod.mk.inj (Option.some.inj hp)
          rw [hlen] at hpos hfin
          refine ⟨by omega, by omega, by omega, by omega, ?_⟩
          rw [← hfin, seqAdd_fwd, decide_eq_true_iff, eq_fwd (by omega) (by omega)]

/-- The head of the ring. -/
theorem At.head (h : At b u x m s) :
    s.head.1 = min s.mss s.buffered ∧ (s.head.2 ↔ s.finSent ∧ s.buffered ≤ s.mss) := by
  obtain ⟨h1, h2, -⟩ := h.reach
  have hlt : seqLt s.una s.dataEnd ↔ 0 < s.buffered := by
    rw [h.una, h.dataEnd, seqLt_fwd (by omega) (by omega)]
    omega
  have hlen : s.head.1 = min s.mss s.buffered := by
    unfold Snd.head
    dsimp only
    split
    · rw [h.dataEnd, h.una, toNat_fwd_sub (by omega) (by omega), Nat.add_sub_cancel_left]
    · rename_i hc
      rw [hlt] at hc
      omega
  refine ⟨hlen, ?_⟩
  have hfin : s.head.2 = decide (s.finSent ∧ seqAdd s.una s.head.1 = s.dataEnd) := rfl
  rw [hfin, decide_eq_true_iff, hlen, h.dataEnd, h.una, seqAdd_fwd,
    eq_fwd (by omega) (by omega)]
  constructor
  · rintro ⟨hf, he⟩
    exact ⟨hf, by omega⟩
  · rintro ⟨hf, he⟩
    exact ⟨hf, by omega⟩

/-- The numbers that a segment from the head of the ring takes up. -/
theorem At.head_span (h : At b u x m s) {bytes : List Byte} (hlen : bytes.length = s.head.1) :
    ∃ n, Flags.span { ack := true, fin := s.head.2 } bytes.length = n ∧ n ≤ s.buffered + 1 ∧
      (n = s.buffered + 1 → s.finSent) := by
  obtain ⟨h1, h2⟩ := h.head
  refine ⟨_, rfl, ?_⟩
  rw [hlen, h1]
  cases hf : s.head.2 with
  | false =>
    simp only [Flags.span, Bool.false_eq_true, if_false]
    omega
  | true =>
    simp only [Flags.span, Bool.false_eq_true, if_false, if_true]
    exact ⟨by omega, fun _ => (h2.mp hf).1⟩

theorem At.finAcked (h : At b u x m s) : s.finAcked ↔ s.finSent ∧ m = u := by
  obtain ⟨h1, h2, h3, h4⟩ := h.reach
  unfold Snd.finAcked
  rw [decide_eq_true_iff, h.max, h.una, seqLeq_fwd (by omega) (by omega)]
  constructor
  · rintro ⟨hf, he⟩
    exact ⟨hf, by omega⟩
  · rintro ⟨hf, he⟩
    exact ⟨hf, by omega⟩

end Snd
end Zuzu.L5
