import Zuzu.Core.Spans
import Zuzu.L5Net.TcpPcb

/-!
# The receive window over plain positions

The sequence numbers of the receiving side are named by natural numbers: position
`n` has the number `fwd b n`. All positions in use at one time are less than half a
turn apart, so the modular comparisons of the source are comparisons of positions, and
the out-of-order ranges are spans of positions (`Core/Spans`).

**Results.** One lemma for each operation on the receiving side: `Rcv.At` says
where the block stands, and `At.advertise`, `At.deliver`, `At.store`, `At.read`, `At.takeFin`
where it stands afterwards. The edge of the window never moves back.
-/
namespace Zuzu.L5
open Zuzu.Core Serial Spans

variable {b : Seq} {m n : Nat}
variable {lo : Nat} {xs : List Span} {r' : Rcv}

theorem seqAdd_fwd (b : Seq) (m n : Nat) : seqAdd (fwd b m) n = fwd b (m + n) := fwd_add b m n

section
variable (h1 : n ≤ m + 2 ^ 31) (h2 : m < n + 2 ^ 31)
include h1 h2

theorem seqLt_fwd : seqLt (fwd b m) (fwd b n) ↔ m < n := lt_fwd (by omega) (by omega)

theorem seqLeq_fwd : seqLeq (fwd b m) (fwd b n) ↔ m ≤ n := le_fwd (by omega) (by omega)

theorem seqMax_fwd : seqMax (fwd b m) (fwd b n) = fwd b (max m n) := by
  unfold seqMax
  split
  · rename_i h
    rw [seqLt_fwd h1 h2] at h
    rw [max_eq_right h.le]
  · rename_i h
    rw [seqLt_fwd h1 h2] at h
    rw [max_eq_left (by omega)]

end

theorem toNat_fwd_sub (h : m ≤ n) (hn : n < m + 2 ^ 32) : (fwd b n - fwd b m).toNat = n - m :=
  dist_fwd h (by omega)

/-- Position `p` is in cell `b + p` of a ring. -/
theorem cell_fwd (b : Seq) (p : Nat) {k : Nat} (h : n = 2 ^ k) (hk : k ≤ 32) :
    cell (fwd b p) n = (b.toNat + p) % n := by
  rw [h]
  exact toNat_fwd_and hk

/-- The range of a span of positions. -/
def named (b : Seq) (x : Span) : Range := ⟨fwd b x.1, fwd b x.2⟩

/-! ## The loops over ranges -/

/-- Spans that lie in a stretch of half a turn. -/
def Near (lo : Nat) (xs : List Span) : Prop := ∀ x ∈ xs, lo ≤ x.1 ∧ x.1 ≤ x.2 ∧ x.2 < lo + 2 ^ 31

theorem fwdMerge_named (h : Near lo xs) (hlo : lo ≤ n)
    (hn : n < lo + 2 ^ 31) :
    fwdMerge (fwd b n) (xs.map (named b)) =
      (fwd b (absorb n xs).1, (absorb n xs).2.map (named b)) := by
  induction xs generalizing n with
  | nil => rfl
  | cons x xs ih =>
    obtain ⟨⟨hx1, hx2, hx3⟩, hxs⟩ := List.forall_mem_cons.mp h
    rw [List.map_cons, fwdMerge, absorb]
    have hle : seqLeq (named b x).start (fwd b n) ↔ x.1 ≤ n := seqLeq_fwd (by omega) (by omega)
    have hmax : seqMax (fwd b n) (named b x).stop = fwd b (max n x.2) :=
      seqMax_fwd (by omega) (by omega)
    by_cases hc : x.1 ≤ n
    · rw [if_pos (hle.mpr hc), if_pos hc, hmax]
      exact ih hxs (by omega) (by omega)
    · rw [if_neg (mt hle.mp hc), if_neg hc]
      rfl

theorem insertRange_named {x : Span} (h : Near lo xs) (hlo : lo ≤ x.1)
    (hx : x.1 < lo + 2 ^ 31) :
    insertRange (named b x) (xs.map (named b)) = (Spans.insert x xs).map (named b) := by
  induction xs with
  | nil => rfl
  | cons y ys ih =>
    obtain ⟨⟨hy1, hy2, hy3⟩, hys⟩ := List.forall_mem_cons.mp h
    rw [List.map_cons, insertRange, Spans.insert]
    have hlt : seqLt (named b y).start (named b x).start ↔ y.1 < x.1 :=
      seqLt_fwd (by omega) (by omega)
    by_cases hc : y.1 < x.1
    · rw [if_pos (hlt.mpr hc), if_pos hc, List.map_cons, ih hys]
    · rw [if_neg (mt hlt.mp hc), if_neg hc]
      rfl

theorem fuseFrom_named {x : Span} (h : Near lo (x :: xs)) :
    L5.fuseFrom (named b x) (xs.map (named b)) = (Spans.fuseFrom x xs).map (named b) := by
  induction xs generalizing x with
  | nil => rfl
  | cons y ys ih =>
    obtain ⟨⟨hx1, hx2, hx3⟩, hxs⟩ := List.forall_mem_cons.mp h
    obtain ⟨⟨hy1, hy2, hy3⟩, hys⟩ := List.forall_mem_cons.mp hxs
    rw [List.map_cons, L5.fuseFrom, Spans.fuseFrom]
    have hle : seqLeq (named b y).start (named b x).stop ↔ y.1 ≤ x.2 :=
      seqLeq_fwd (by omega) (by omega)
    have hmax : seqMax (named b x).stop (named b y).stop = fwd b (max x.2 y.2) :=
      seqMax_fwd (by omega) (by omega)
    by_cases hc : y.1 ≤ x.2
    · rw [if_pos (hle.mpr hc), if_pos hc, hmax]
      exact ih (x := (x.1, max x.2 y.2))
        (List.forall_mem_cons.mpr ⟨⟨hx1, by simp only; omega, by simp only; omega⟩, hys⟩)
    · rw [if_neg (mt hle.mp hc), if_neg hc, List.map_cons, ih hxs]

theorem fuseRanges_named (h : Near lo xs) :
    fuseRanges (xs.map (named b)) = (fuse xs).map (named b) := by
  cases xs with
  | nil => rfl
  | cons x xs => exact fuseFrom_named h

/-! ## Where the receiving side stands -/

namespace Rcv

/-- The sequence number that a consumed FIN takes. -/
def fin (r : Rcv) : Nat := r.finRcvd.toNat

/-- `R` bytes have been read, everything before position `N` has arrived (with the FIN, once it is
consumed), positions before `A` have been announced, and `xs` are held out of order. -/
structure At (b : Seq) (R N A : Nat) (xs : List Span) (r : Rcv) : Prop where
  rsq : r.rsq = fwd b R
  nxt : r.nxt = fwd b N
  adv : r.adv = fwd b A
  ranges : r.ranges = xs.map (named b)
  size : r.size = tcpRcvBuf
  read : R + r.fin ≤ N
  seen : N ≤ A + r.fin
  room : A ≤ max (R + tcpRcvBuf) N
  full : N ≤ R + tcpRcvBuf + r.fin
  apart : Apart (N - r.fin) xs
  below : ∀ x ∈ xs, x.2 ≤ A
  few : xs.length ≤ tcpOooMax

variable {R N A : Nat} {xs : List Span} {r : Rcv}

theorem fin_le (r : Rcv) : r.fin ≤ 1 := by
  unfold fin
  cases r.finRcvd <;> decide

theorem At.near (h : At b R N A xs r) : Near R xs := by
  intro x hx
  have h1 := h.apart.lower hx
  have h2 := h.below x hx
  have h3 := h.read
  have h4 := h.room
  have h5 := h.full
  have h6 := fin_le r
  simp only [tcpRcvBuf] at h4 h5
  omega

/-- A segment is offered: the window is opened again, unless little is gained. -/
theorem At.advertise (h : At b R N A xs r) (mss : Nat) :
    ∃ A', A ≤ A' ∧ At b R N A' xs (r.advertise mss) := by
  have hfin := fin_le r
  have hread := h.read
  have hseen := h.seen
  have hroom := h.room
  have hfull := h.full
  have hsz : tcpRcvBuf = 32768 := rfl
  -- the edge, by position
  have hedge : ∃ E, r.edge mss = fwd b E ∧ A ≤ max E N ∧ E ≤ max (R + tcpRcvBuf) N ∧
      N ≤ E + 1 := by
    unfold Rcv.edge
    rw [h.rsq, h.adv, h.size, seqAdd_fwd]
    dsimp only
    split
    · exact ⟨A, rfl, le_max_left _ _, hroom, by omega⟩
    · exact ⟨R + tcpRcvBuf, rfl, hroom, le_max_left _ _, by omega⟩
  obtain ⟨E, hE, hE1, hE2, hE3⟩ := hedge
  have hadv : (r.advertise mss).adv = fwd b (max N E) := by
    unfold Rcv.advertise Rcv.window
    rw [hE, h.nxt]
    have hlt : seqLt (fwd b N) (fwd b E) ↔ N < E := seqLt_fwd (by omega) (by omega)
    by_cases hc : N < E
    · rw [if_pos (hlt.mpr hc), toNat_fwd_sub hc.le (by omega), Nat.mod_eq_of_lt (by omega),
        seqAdd_fwd, Nat.add_sub_cancel' hc.le, max_eq_right hc.le]
    · rw [if_neg (mt hlt.mp hc), seqAdd_fwd, Nat.add_zero, max_eq_left (by omega)]
  refine ⟨max N E, by omega, h.rsq, h.nxt, hadv, h.ranges, h.size, hread, ?_, ?_, hfull, h.apart,
    fun x hx => (h.below x hx).trans (by omega), h.few⟩
  · change N ≤ max N E + r.fin
    omega
  · omega

theorem At.setBuf (h : At b R N A xs r) (buf : Option (Nat → Byte)) :
    At b R N A xs { r with buf := buf } :=
  ⟨h.rsq, h.nxt, h.adv, h.ranges, h.size, h.read, h.seen, h.room, h.full, h.apart, h.below, h.few⟩

theorem At.seeFin (h : At b R N A xs r) (seg : Segment) : At b R N A xs (r.seeFin seg) := by
  unfold Rcv.seeFin
  split
  · exact ⟨h.rsq, h.nxt, h.adv, h.ranges, h.size, h.read, h.seen, h.room, h.full, h.apart, h.below,
      h.few⟩
  · exact h

theorem write_eq {seq : Seq} {data : List Byte} (h : r.write seq data = some r') :
    r' = { r with buf := r'.buf } := by
  unfold Rcv.write at h
  split at h
  · cases h
    rfl
  · obtain ⟨f, -, rfl⟩ := Option.map_eq_some_iff.mp h
    rfl

section
variable (h : At b R N A xs r)
include h

/-- Bytes in order go into the ring as far as they were announced, and the position moves
on over the ranges that it reaches. -/
theorem At.deliver (hf : r.finRcvd = false) {payload : List Byte}
    (hd : r.deliverData payload = some r') (hn : n = N + min payload.length (A - N)) :
    At b R (absorb n xs).1 A (absorb n xs).2 r'.merge ∧
      r.write r.nxt (payload.take (n - N)) = some { r with buf := r'.buf } ∧
      r'.merge = { r with
        nxt := fwd b (absorb n xs).1
        ranges := (absorb n xs).2.map (named b)
        buf := r'.buf } := by
  have hfin : r.fin = 0 := by rw [Rcv.fin, hf]; rfl
  have hread := h.read
  have hseen := h.seen
  have hroom := h.room
  have hfull := h.full
  have hsz : tcpRcvBuf = 32768 := rfl
  have hlt : seqLt r.nxt r.adv ↔ N < A := by
    rw [h.nxt, h.adv]
    exact seqLt_fwd (by omega) (by omega)
  have hroomN : (if seqLt r.nxt r.adv then (r.adv - r.nxt).toNat else 0) = A - N := by
    split
    · rename_i hc
      rw [h.nxt, h.adv, toNat_fwd_sub (hlt.mp hc).le (by omega)]
    · rename_i hc
      rw [hlt] at hc
      omega
  unfold Rcv.deliverData at hd
  rw [hroomN] at hd
  obtain ⟨q, hw, rfl⟩ := Option.map_eq_some_iff.mp hd
  have hq := write_eq hw
  have hmin : n - N = min payload.length (A - N) := by omega
  have hnxt : seqAdd q.nxt (min payload.length (A - N)) = fwd b n := by
    rw [hq, hn]
    exact (congrArg (seqAdd · _) h.nxt).trans (seqAdd_fwd _ _ _)
  have hmerge : fwdMerge (fwd b n) q.ranges =
      (fwd b (absorb n xs).1, (absorb n xs).2.map (named b)) := by
    rw [hq]
    exact (congrArg (fwdMerge _) h.ranges).trans
      (fwdMerge_named h.near (by omega) (by omega))
  have hge := absorb_ge n xs
  have hle : (absorb n xs).1 ≤ A := absorb_le (by omega) h.below
  have hsuf := absorb_suffix n xs
  have heq : Rcv.merge { q with nxt := seqAdd q.nxt (min payload.length (A - N)) } = { r with
      nxt := fwd b (absorb n xs).1
      ranges := (absorb n xs).2.map (named b)
      buf := q.buf } := by
    unfold Rcv.merge
    rw [hnxt]
    rw [hmerge, hq]
  refine ⟨?_, ?_, heq⟩
  · rw [heq]
    refine ⟨h.rsq, rfl, h.adv, rfl, h.size, ?_, ?_, ?_, ?_, ?_, ?_, ?_⟩
    · change R + r.fin ≤ (absorb n xs).1
      omega
    · change (absorb n xs).1 ≤ A + r.fin
      omega
    · omega
    · change (absorb n xs).1 ≤ R + tcpRcvBuf + r.fin
      omega
    · exact (absorb_apart h.apart).mono (Nat.sub_le _ _)
    · exact fun x hx => h.below x (hsuf.subset hx)
    · exact hsuf.length_le.trans h.few
  · rw [hmin, hw, hq]

/-- A segment from beyond the position is dropped, or held for later. -/
theorem At.store (hf : r.finRcvd = false) {seq : Seq} {payload : List Byte} (hlt : seqLt r.nxt seq)
    (hne : payload ≠ []) (hlen : payload.length < 2 ^ 16) (hs : r.storeOoo seq payload = some r') :
    r' = r ∨ ∃ p, seq = fwd b p ∧ N < p ∧ p + payload.length ≤ A ∧
      At b R N A (fuse (Spans.insert (p, p + payload.length) xs)) r' ∧
      r.write seq payload = some { r with buf := r'.buf } ∧
      r' = { r with
        ranges := (fuse (Spans.insert (p, p + payload.length) xs)).map (named b)
        buf := r'.buf } := by
  have hfin : r.fin = 0 := by rw [Rcv.fin, hf]; rfl
  have hread := h.read
  have hseen := h.seen
  have hroom := h.room
  have hsz : tcpRcvBuf = 32768 := rfl
  have hpos := List.length_pos_of_ne_nil hne
  -- the segment is at position `N + d`
  obtain ⟨d, hd, hd1, hd2⟩ : ∃ d, seq = fwd b (N + d) ∧ d ≠ 0 ∧ 2 * d ≤ 2 ^ 32 := by
    have := (Serial.lt_iff r.nxt seq).mp hlt
    refine ⟨dist r.nxt seq, ?_, this.1, this.2⟩
    rw [← fwd_fwd, ← h.nxt, fwd_dist]
  have hstop : seqAdd seq payload.length = fwd b (N + d + payload.length) := by
    rw [hd, seqAdd_fwd]
  unfold Rcv.storeOoo at hs
  dsimp only at hs
  split at hs
  · exact .inl (Option.some.inj hs).symm
  · rename_i hold
    have hnear : d + payload.length < 2 ^ 31 := by
      by_contra hge
      refine hold ?_
      rw [hstop, h.nxt]
      refine (Serial.le_iff _ _).mpr ?_
      rw [dist_fwd_back (by omega) (by omega)]
      omega
    have hstart : ¬seqLt seq r.nxt := by
      rw [hd, h.nxt, seqLt_fwd (by omega) (by omega)]
      omega
    rw [if_neg hstart] at hs
    split at hs
    · exact .inl (Option.some.inj hs).symm
    · rename_i hadv
      rw [hstop, h.adv, seqLt_fwd (by omega) (by omega)] at hadv
      split at hs
      · exact .inl (Option.some.inj hs).symm
      · rename_i hfew
        rw [h.ranges, List.length_map] at hfew
        obtain ⟨q, hw, rfl⟩ := Option.map_eq_some_iff.mp hs
        have hclip : (seq - seq).toNat % 2 ^ 16 = 0 := by simp
        rw [hclip, List.drop_zero] at hw
        have hq := write_eq hw
        have hins : fuseRanges (insertRange ⟨seq, seqAdd seq payload.length⟩ q.ranges) =
            (fuse (Spans.insert (N + d, N + d + payload.length) xs)).map (named b) := by
          rw [hstop, hd]
          have hnear' : Near R (Spans.insert (N + d, N + d + payload.length) xs) := by
            intro x hx
            rcases mem_insert.mp hx with rfl | hx
            · omega
            · exact h.near x hx
          rw [← fuseRanges_named hnear', ← insertRange_named h.near (by simp only; omega)
            (by simp only; omega), hq]
          exact congrArg (fun l => fuseRanges (insertRange _ l)) h.ranges
        have heq : ({ q with
              ranges := fuseRanges (insertRange ⟨seq, seqAdd seq payload.length⟩ q.ranges) } : Rcv) =
            { r with
              ranges := (fuse (Spans.insert (N + d, N + d + payload.length) xs)).map (named b)
              buf := q.buf } := by
          rw [hins, hq]
        refine .inr ⟨N + d, hd, by omega, by omega, ?_, ?_, heq⟩
        · rw [heq]
          refine ⟨h.rsq, h.nxt, h.adv, rfl, h.size, h.read, h.seen, h.room, h.full, ?_, ?_, ?_⟩
          · refine fuse_apart (insert_rising (h.apart.rising ?_) ?_ ?_)
            · exact le_refl _
            · change N - r.fin + 1 ≤ N + d
              omega
            · omega
          · refine fuse_le fun x hx => ?_
            rcases mem_insert.mp hx with rfl | hx
            · omega
            · exact h.below x hx
          · refine (length_fuse _).trans ?_
            rw [length_insert]
            omega
        · rw [hw, hq]

/-- What can be read. -/
theorem At.avail : r.avail = N - R - r.fin := by
  have hfin := fin_le r
  have hread := h.read
  have hfull := h.full
  have hsz : tcpRcvBuf = 32768 := rfl
  unfold Rcv.avail
  rw [h.nxt, h.rsq, toNat_fwd_sub (by omega) (by omega)]
  cases hf : r.finRcvd with
  | false => simp [Rcv.fin, hf]
  | true =>
    have h1 : r.fin = 1 := by rw [Rcv.fin, hf]; rfl
    rw [if_pos ⟨rfl, by omega⟩, h1]

theorem At.readOut {data : List Byte} (hn : n ≤ r.avail) (hr : r.read n = some (r', data)) :
    At b (R + n) N A xs r' ∧ ∃ f, r.buf = some f ∧ r'.buf = some f ∧
      data = Ring.get r.size f (cell r.rsq r.size) n := by
  have hread := h.read
  have hroom := h.room
  have hfull := h.full
  rw [h.avail] at hn
  obtain ⟨f, hf, hq⟩ := Option.map_eq_some_iff.mp hr
  cases hq
  refine ⟨⟨?_, h.nxt, h.adv, h.ranges, h.size, ?_, h.seen, ?_, ?_, h.apart, h.below, h.few⟩,
    f, hf, hf, rfl⟩
  · exact (congrArg (seqAdd · n) h.rsq).trans (seqAdd_fwd _ _ _)
  · change R + n + r.fin ≤ N
    omega
  · omega
  · change N ≤ R + n + tcpRcvBuf + r.fin
    omega

theorem At.takeFin (hf : r.finRcvd = false) : At b R (N + 1) A xs r.takeFin := by
  have hfin : r.fin = 0 := by rw [Rcv.fin, hf]; rfl
  have hread := h.read
  have hseen := h.seen
  have hroom := h.room
  have hfull := h.full
  have happ := h.apart
  rw [hfin] at happ
  refine ⟨h.rsq, ?_, h.adv, h.ranges, h.size, ?_, ?_, ?_, ?_, happ, h.below, h.few⟩
  · exact (congrArg (seqAdd · 1) h.nxt).trans (seqAdd_fwd _ _ _)
  · change R + 1 ≤ N + 1
    omega
  · change N + 1 ≤ A + 1
    omega
  · omega
  · change N + 1 ≤ R + tcpRcvBuf + 1
    omega

end

/-- A block that has not heard from its peer. -/
structure Blank (r : Rcv) : Prop where
  ranges : r.ranges = []
  size : r.size = tcpRcvBuf
  finSeen : r.finSeen = false
  finRcvd : r.finRcvd = false

theorem Blank.synced (h : Blank r) (seq : Seq) :
    At (seqAdd seq 1) 0 0 tcpRcvBuf [] (r.synced seq) := by
  have hfin : (r.synced seq).fin = 0 := by
    change r.finRcvd.toNat = 0
    rw [h.finRcvd]
    rfl
  refine ⟨(fwd_zero _).symm, (fwd_zero _).symm, ?_, h.ranges, h.size, ?_, ?_, ?_, ?_, trivial, ?_, ?_⟩
  · change seqAdd (seqAdd seq 1) r.size = _
    rw [h.size]
    rfl
  all_goals simp [hfin]

end Rcv
end Zuzu.L5
