import Zuzu.L5Net.TcpWindow

/-!
# Received bytes are the peer's bytes

The peer has a stream of bytes, numbered from its initial sequence number plus one, and
perhaps a FIN after the last. Segments cut from the stream arrive in any order, some
never and some many times, and the application reads as it likes.

Sequence numbers repeat after 2^32 bytes, and netd has no other means to tell an
old segment from a new one. `Recent` is what has to hold: a segment that arrives is less than a
turn, without one ring, behind what has arrived, and less than a turn ahead.

**Results.** `receive_integrity`: what the application is given is a prefix of the
stream. `stale_segment_is_taken`: without `Recent` it is not.
-/
namespace Zuzu.L5
open Zuzu.Core Serial Spans

/-- The segment carries the bytes of the stream from offset `k` on, and a FIN only after the
last. -/
structure CutAt (isn : Seq) (stream : List Byte) (k : Nat) (seg : Segment) : Prop where
  seq : seg.seq = fwd (seqAdd isn 1) k
  payload : ∀ i (hi : i < seg.payload.length), stream[k + i]? = some seg.payload[i]
  fin : seg.flags.fin → k + seg.payload.length = stream.length

/-- When `n` bytes have arrived in order, a segment from offset `k` is not so old or so far
ahead that its numbers are in use for other bytes. -/
def Recent (n k : Nat) (seg : Segment) : Prop :=
  n + tcpRcvBuf < k + 2 ^ 32 ∧ k + seg.payload.length < n + 2 ^ 32

/-- A connection to a peer with the given stream: the SYN it hears carries `isn`, and the
text it hears is cut from the stream, where `near` may say more. -/
def FromPeer (isn : Seq) (stream : List Byte) (near : Nat → Nat → Segment → Prop) (s : Conn)
    (l : Op × Env) : Prop :=
  match l.1 with
  | .accept _ seg _ => seg.seq = isn
  | .rx seg =>
    seg.flags.rst = false →
      (s.pcb.state = .synSent → seg.flags.syn → seg.seq = isn) ∧
      (s.pcb.state.texts → ∃ k, CutAt isn stream k seg ∧ near (s.cx l.2.tx).recvCount k seg)
  | _ => True

def peerKit (isn : Seq) (stream : List Byte) : Kit :=
  { Kit.all with
    text := fun n seg => ∃ k, CutAt isn stream k seg ∧ Recent n k seg
    syn := fun seg => seg.seq = isn }

theorem peerKit_allows {isn : Seq} {stream : List Byte} {s : Conn} {l : Op × Env}
    (h : FromPeer isn stream Recent s l) :
    (peerKit isn stream).Allows l.2 (s.cx l.2.tx) l.1 := by
  obtain ⟨op, env⟩ := l
  cases op with
  | rx seg =>
    exact fun hr => ⟨fun _ => ⟨fun _ => trivial, fun _ _ _ _ => trivial, fun _ _ _ => trivial⟩,
      (h hr).2, fun _ _ _ _ _ => trivial, (h hr).1, fun _ _ _ => trivial⟩
  | close => exact fun _ => trivial
  | accept => exact ⟨trivial, h⟩
  | _ => trivial

/-! ## Bytes by position -/

variable {isn : Seq} {stream : List Byte} {b : Seq} {N A : Nat} {xs : List Span} {c c' : Cx}

/-- What the receiving side holds of the stream: `N` and `xs` are as in `Track`. -/
structure Carries (stream : List Byte) (b : Seq) (N : Nat) (xs : List Span) (c : Cx) : Prop where
  gave : gaveAll c.log <+: stream
  arrived : N ≤ stream.length + c.pcb.rcv.fin
  held : ∀ x ∈ xs, x.2 ≤ stream.length
  ring : ∀ f, c.pcb.rcv.buf = some f → Ring.Holds tcpRcvBuf b.toNat (fun i => stream.getD i 0)
    (fun i => (gaveAll c.log).length ≤ i ∧ i < N - c.pcb.rcv.fin ∨ Covers xs i) f
  fin : c.pcb.rcv.finSeen → c.pcb.rcv.finRcvd = false →
    c.pcb.rcv.finSeq = fwd b stream.length ∧ stream.length < N + 2 ^ 32
  whole : c.pcb.rcv.finRcvd → N = stream.length + 1
  fresh : c.pcb.state = .synRcvd → N = 0 ∧ xs = []

/-- A segment cut at `k` that begins at the position `p` does begin there. -/
theorem CutAt.offset {k p : Nat} {seg : Segment} (h : CutAt isn stream k seg)
    (hr : Recent N k seg) (hp : seg.seq = fwd (seqAdd isn 1) p) (h1 : N ≤ p)
    (h2 : p ≤ N + tcpRcvBuf) : k = p := by
  have heq := h.seq.symm.trans hp
  obtain ⟨hr1, hr2⟩ := hr
  exact (eq_fwd (by omega) (by omega)).mp heq

/-- An act that keeps the ring, or frees it, and leaves the FIN alone. -/
theorem Carries.keep (h : Carries stream b N xs c) (hq : RcvQuiet c c')
    (hbuf : c'.pcb.rcv.buf = c.pcb.rcv.buf ∨ c'.pcb.rcv.buf = none ∨ c.pcb.state = .synRcvd)
    (hf1 : c'.pcb.rcv.finRcvd = c.pcb.rcv.finRcvd) (hf2 : c'.pcb.rcv.finSeen = c.pcb.rcv.finSeen)
    (hf3 : c'.pcb.rcv.finSeq = c.pcb.rcv.finSeq) : Carries stream b N xs c' := by
  have hfin : c'.pcb.rcv.fin = c.pcb.rcv.fin := by rw [Rcv.fin, Rcv.fin, hf1]
  refine ⟨hq.gave ▸ h.gave, hfin ▸ h.arrived, h.held, fun f hf => ?_, ?_, hf1 ▸ h.whole,
    fun h' => h.fresh (hq.half h')⟩
  · rw [hq.gave, hfin]
    rcases hbuf with hb | hb | hst
    · exact h.ring f (hb ▸ hf)
    · rw [hb] at hf
      cases hf
    · -- nothing has arrived that a new ring would have to hold
      obtain ⟨rfl, rfl⟩ := h.fresh hst
      rintro i (⟨-, hi⟩ | ⟨x, hx, -⟩)
      · omega
      · cases hx
  · rw [hf1, hf2, hf3]
    exact h.fin

/-- The first FIN that is seen tells where the stream ends. -/
theorem Carries.seeFin {seg : Segment} (h : Carries stream (seqAdd isn 1) N xs c)
    (hcut : ∃ k, CutAt isn stream k seg ∧ Recent N k seg) (hq : RcvQuiet c c')
    (hr : c'.pcb.rcv = c.pcb.rcv.seeFin seg) : Carries stream (seqAdd isn 1) N xs c' := by
  unfold Rcv.seeFin at hr
  split at hr
  · rename_i hfin
    obtain ⟨k, hk, -, hk2⟩ := hcut
    have hend := hk.fin hfin.1
    refine ⟨hq.gave ▸ h.gave, hr ▸ h.arrived, h.held, ?_, fun _ _ => ⟨?_, by omega⟩,
      by rw [hr]; exact h.whole, fun h' => h.fresh (hq.half h')⟩
    · rw [hr, hq.gave]
      exact h.ring
    · rw [hr, ← hend, ← seqAdd_fwd, ← hk.seq]
  · exact h.keep hq (.inl (by rw [hr])) (by rw [hr]) (by rw [hr]) (by rw [hr])

theorem holds_write {r r' : Rcv} {P : Nat → Prop} {p : Nat} {data : List Byte}
    (hsize : r.size = tcpRcvBuf)
    (hring : ∀ f, r.buf = some f →
      Ring.Holds tcpRcvBuf b.toNat (fun i => stream.getD i 0) P f)
    (hw : r.write (fwd b p) data = some r') (hlen : data.length ≤ tcpRcvBuf)
    (hdata : ∀ i (hi : i < data.length), stream[p + i]? = some data[i])
    (hfar : ∀ i, P i → i < p + tcpRcvBuf ∧ p + data.length ≤ i + tcpRcvBuf) (f : Nat → Byte)
    (hf : r'.buf = some f) :
    Ring.Holds tcpRcvBuf b.toNat (fun i => stream.getD i 0)
      (fun i => P i ∨ p ≤ i ∧ i < p + data.length) f := by
  unfold Rcv.write at hw
  split at hw
  · rename_i h0
    cases hw
    refine (hring f hf).mono fun i hi => ?_
    rw [h0] at hi
    exact hi.resolve_right (by simp only [List.length_nil]; omega)
  · obtain ⟨g, hg, rfl⟩ := Option.map_eq_some_iff.mp hw
    cases hf
    rw [hsize, cell_fwd b p (n := tcpRcvBuf) (k := 15) rfl (by decide)]
    refine (hring g hg).put (by decide) hlen (fun i hi => ?_) hfar
    rw [List.getD_eq_getElem?_getD, hdata i hi]
    rfl

theorem CutAt.le_length {k n : Nat} {seg : Segment} (h : CutAt isn stream k seg)
    (hk : k ≤ stream.length) (hn : n ≤ seg.payload.length) : k + n ≤ stream.length := by
  rcases Nat.eq_zero_or_pos n with rfl | hpos
  · exact hk
  · have hlast := h.payload (n - 1) (by omega)
    have := (List.getElem?_eq_some_iff.mp hlast).1
    omega

theorem Carries.deliver {seg : Segment} {r : Rcv} (ht : Track (seqAdd isn 1) N A xs c)
    (hc : Carries stream (seqAdd isn 1) N xs c) (hq : RcvQuiet c c') (htx : c.pcb.state.texts)
    (hcut : ∃ k, CutAt isn stream k seg ∧ Recent N k seg) (hseq : seg.seq = c.pcb.rcv.nxt)
    (hd : c.pcb.rcv.deliverData seg.payload = some r) (hr : c'.pcb.rcv = r.merge) :
    ∃ N' A' xs', Track (seqAdd isn 1) N' A' xs' c' ∧
      Carries stream (seqAdd isn 1) N' xs' c' := by
  obtain ⟨n, hn⟩ : ∃ n, n = N + min seg.payload.length (A - N) := ⟨_, rfl⟩
  have h0 := ht.no_fin htx
  obtain ⟨hp, hw, heq⟩ := ht.pos.deliver h0 hd hn
  have hfin : c.pcb.rcv.fin = 0 := by rw [Rcv.fin, h0]; rfl
  have hf : c'.pcb.rcv.finRcvd = c.pcb.rcv.finRcvd := by rw [hr, heq]
  have hfin' : c'.pcb.rcv.fin = 0 := by rw [Rcv.fin, hf, h0]; rfl
  obtain ⟨k, hk, hrec⟩ := hcut
  obtain rfl : k = N := hk.offset hrec (hseq.trans ht.pos.nxt) (le_refl _) (by omega)
  have hge := absorb_ge n xs
  have hstream : n ≤ stream.length := by
    have := hc.arrived
    have := hk.le_length (n := n - k) (by omega) (by omega)
    omega
  have hlen : (seg.payload.take (n - k)).length = n - k := by
    rw [List.length_take]
    omega
  have hring := fun f hf' => holds_write (f := f) ht.pos.size hc.ring (ht.pos.nxt ▸ hw) (by
      have := ht.pos.room
      have := ht.pos.read
      omega) (fun i hi => by
      rw [List.getElem_take]
      exact hk.payload i (by omega)) (fun i hi => by
      have := ht.pos.room
      have := ht.pos.full
      have := ht.pos.read
      rcases hi with hi | ⟨x, hx, hi⟩
      · omega
      · have := ht.pos.below x hx
        have := ht.pos.apart.lower hx
        omega) hf'
  refine ⟨_, A, _, ht.quiet hq (hr ▸ hp) hf, ⟨hq.gave ▸ hc.gave, ?_, ?_, ?_, ?_, ?_, ?_⟩⟩
  · exact (absorb_le hstream hc.held).trans (Nat.le_add_right _ _)
  · exact fun x hx => hc.held x ((absorb_suffix n xs).subset hx)
  · intro f hbuf
    rw [hr, heq] at hbuf
    refine (hring f hbuf).mono fun i hi => ?_
    rw [hq.gave, hfin'] at hi
    rw [hfin, hlen]
    rcases hi with ⟨h1, h2⟩ | ⟨x, hx, h⟩
    · rcases Nat.lt_or_ge i n with hlt | hge'
      · omega
      · exact .inl (.inr (absorb_covers hge' h2))
    · exact .inl (.inr ⟨x, (absorb_suffix n xs).subset hx, h⟩)
  · intro h1 h2
    rw [hr, heq] at h1 ⊢
    obtain ⟨h3, h4⟩ := hc.fin h1 h0
    exact ⟨h3, by omega⟩
  · intro h
    rw [hf, h0] at h
    cases h
  · intro hst
    rw [hq.half hst] at htx
    cases htx

theorem Carries.store {seg : Segment} (ht : Track (seqAdd isn 1) N A xs c)
    (hc : Carries stream (seqAdd isn 1) N xs c) (hq : RcvQuiet c c') (htx : c.pcb.state.texts)
    (hcut : ∃ k, CutAt isn stream k seg ∧ Recent N k seg) (hne : seg.payload ≠ [])
    (hlt : seqLt c.pcb.rcv.nxt seg.seq)
    (hs : c.pcb.rcv.storeOoo seg.seq seg.payload = some c'.pcb.rcv) :
    ∃ N' A' xs', Track (seqAdd isn 1) N' A' xs' c' ∧
      Carries stream (seqAdd isn 1) N' xs' c' := by
  have h0 := ht.no_fin htx
  have hfin : c.pcb.rcv.fin = 0 := by rw [Rcv.fin, h0]; rfl
  rcases ht.pos.store h0 hlt hne seg.short hs with hr | ⟨p, hseq, hNp, hpA, hp, hw, heq⟩
  · exact ⟨N, A, xs, ht.quiet hq (hr ▸ ht.pos) (by rw [hr]),
      hc.keep hq (.inl (by rw [hr])) (by rw [hr]) (by rw [hr]) (by rw [hr])⟩
  have hread := ht.pos.read
  have hroom := ht.pos.room
  have hf : c'.pcb.rcv.finRcvd = c.pcb.rcv.finRcvd := by rw [heq]
  have hfin' : c'.pcb.rcv.fin = 0 := by rw [Rcv.fin, hf, h0]; rfl
  obtain ⟨k, hk, hrec⟩ := hcut
  obtain rfl : k = p := hk.offset hrec hseq hNp.le (by omega)
  have hpos := List.length_pos_of_ne_nil hne
  have hend : k + seg.payload.length ≤ stream.length := by
    have hlast := hk.payload (seg.payload.length - 1) (by omega)
    have := (List.getElem?_eq_some_iff.mp hlast).1
    omega
  have hrising : Rising (N + 1) (Spans.insert (k, k + seg.payload.length) xs) := by
    refine insert_rising (ht.pos.apart.rising (by omega)) hNp ?_
    omega
  refine ⟨N, A, _, ht.quiet hq hp hf, ⟨hq.gave ▸ hc.gave, ?_, ?_, ?_, ?_, ?_, ?_⟩⟩
  · omega
  · refine fuse_le fun x hx => ?_
    rcases mem_insert.mp hx with rfl | hx
    · exact hend
    · exact hc.held x hx
  · intro f hbuf
    refine (holds_write ht.pos.size hc.ring (hseq ▸ hw :) (by omega) hk.payload (fun i hi => ?_) f
      hbuf).mono fun i hi => ?_
    · rcases hi with hi | ⟨x, hx, hi⟩
      · omega
      · have := ht.pos.below x hx
        have := ht.pos.apart.lower hx
        omega
    · rw [hq.gave, hfin'] at hi
      rw [hfin]
      rcases hi with hi | hi
      · exact .inl (.inl hi)
      · rcases covers_insert.mp ((covers_fuse hrising).mp hi) with hi | hi
        · exact .inr hi
        · exact .inl (.inr hi)
  · intro h1 h2
    rw [heq] at h1 ⊢
    exact hc.fin h1 h0
  · intro h
    rw [hf, h0] at h
    cases h
  · intro hst
    rw [hq.half hst] at htx
    cases htx

theorem Carries.give {n : Nat} {data : List Byte} (ht : Track b N A xs c)
    (hc : Carries stream b N xs c) (hst : c'.pcb.state = c.pcb.state) (hn : n ≤ c.pcb.rcv.avail)
    (hread : c.pcb.rcv.read n = some (c'.pcb.rcv, data))
    (hgave : gaveAll c'.log = gaveAll c.log ++ data) : Carries stream b N xs c' := by
  obtain ⟨-, f, hf, hf', hdata⟩ := ht.pos.readOut hn hread
  obtain ⟨g, -, hrcv⟩ := Option.map_eq_some_iff.mp hread
  replace hrcv : c'.pcb.rcv = { c.pcb.rcv with rsq := seqAdd c.pcb.rcv.rsq n } :=
    (Prod.mk.inj hrcv).1.symm
  rw [ht.pos.avail] at hn
  have hfull := ht.pos.full
  have harr := hc.arrived
  have hbytes : data = (stream.drop (gaveAll c.log).length).take n := by
    rw [hdata, ht.pos.rsq, ht.pos.size, cell_fwd b _ (n := tcpRcvBuf) (k := 15) rfl
      (by decide), (hc.ring f hf).get (by decide) (by omega)
      fun i h1 h2 => .inl ⟨h1, by omega⟩]
    refine List.ext_getElem (by simp; omega) fun i h1 h2 => ?_
    simp only [List.length_map, List.length_range] at h1
    simp only [List.getElem_map, List.getElem_range, List.getElem_take, List.getElem_drop]
    exact List.getD_eq_getElem _ _ (by omega)
  have hnext : gaveAll c'.log = stream.take ((gaveAll c.log).length + n) := by
    rw [hgave, hbytes, List.take_add, ← List.prefix_iff_eq_take.mp hc.gave]
  have hfin : c'.pcb.rcv.fin = c.pcb.rcv.fin := by rw [hrcv]; rfl
  refine ⟨hnext ▸ List.take_prefix _ _, hfin ▸ harr, hc.held, fun f' hb => ?_, ?_,
    by rw [hrcv]; exact hc.whole, fun h => hc.fresh (hst ▸ h)⟩
  · rw [hrcv] at hb
    refine (hc.ring f' hb).mono fun i hi => ?_
    rw [hfin, hgave, List.length_append] at hi
    rcases hi with hi | hi
    · exact .inl ⟨by omega, hi.2⟩
    · exact .inr hi
  · rw [hrcv]
    exact hc.fin

/-- The FIN is consumed where the stream ends. -/
theorem Carries.takeFin (ht : Track b N A xs c) (hc : Carries stream b N xs c)
    (hgave : gaveAll c'.log = gaveAll c.log) (htx : c.pcb.state.texts)
    (hpast : c'.pcb.state.pastFin) (hdue : c.pcb.rcv.finDue)
    (hr : c'.pcb.rcv = c.pcb.rcv.takeFin) : Carries stream b (N + 1) xs c' := by
  have h0 := ht.no_fin htx
  have hfin : c.pcb.rcv.fin = 0 := by rw [Rcv.fin, h0]; rfl
  have hfin' : c'.pcb.rcv.fin = 1 := by rw [hr]; rfl
  have harr := hc.arrived
  have hend : N = stream.length := by
    simp only [Rcv.finDue, Bool.decide_and, Bool.and_eq_true, decide_eq_true_eq] at hdue
    obtain ⟨hseq, hnear⟩ := hc.fin hdue.1 h0
    have heq := ht.pos.nxt.symm.trans (hdue.2.2.trans hseq)
    exact (eq_fwd (by omega) (by omega)).mp heq
  refine ⟨hgave ▸ hc.gave, by omega, hc.held, fun f hb => ?_, fun _ h => ?_, fun _ => by omega,
    fun h => ?_⟩
  · rw [hgave, hfin']
    rw [hr] at hb
    have hring := hc.ring f hb
    rw [hfin] at hring
    exact hring
  · rw [hr] at h
    cases h
  · rw [h] at hpast
    cases hpast

theorem RcvAct.carries (h : RcvAct (peerKit isn stream) c c') (hact : c'.pcb.active)
    (ht : Track (seqAdd isn 1) N A xs c) (hc : Carries stream (seqAdd isn 1) N xs c) :
    ∃ N' A' xs', Track (seqAdd isn 1) N' A' xs' c' ∧
      Carries stream (seqAdd isn 1) N' xs' c' := by
  have hcount := ht.count
  cases h with
  | gone h _ => rw [h] at hact; cases hact
  | idle hq hr =>
    exact ⟨N, A, xs, ht.quiet hq (hr ▸ ht.pos) (by rw [hr]),
      hc.keep hq (.inl (by rw [hr])) (by rw [hr]) (by rw [hr]) (by rw [hr])⟩
  | advertise mss hq hr =>
    obtain ⟨A', -, hp⟩ := ht.pos.advertise mss
    exact ⟨N, A', xs, ht.quiet hq (hr ▸ hp) (by rw [hr]; rfl),
      hc.keep hq (.inl (by rw [hr]; rfl)) (by rw [hr]; rfl) (by rw [hr]; rfl) (by rw [hr]; rfl)⟩
  | setBuf buf hq hbuf hr =>
    exact ⟨N, A, xs, ht.quiet hq (hr ▸ ht.pos.setBuf buf) (by rw [hr]),
      hc.keep hq (.inr (hbuf.imp_left fun h => by rw [hr]; exact h)) (by rw [hr]) (by rw [hr])
        (by rw [hr])⟩
  | seeFin seg hq htx hK hr =>
    exact ⟨N, A, xs, ht.quiet hq (hr ▸ ht.pos.seeFin seg) (by rw [hr, Rcv.seeFin_finRcvd]),
      hc.seeFin (hcount ▸ hK) hq hr⟩
  | deliver seg r hq htx hK _ hseq hd hr => exact hc.deliver ht hq htx (hcount ▸ hK) hseq hd hr
  | store seg hq htx hK hne hlt hs => exact hc.store ht hq htx (hcount ▸ hK) hne hlt hs
  | gave n data hst _ hn hread hgave =>
    exact ⟨N, A, xs, (ht.give hst hn hread hgave).1, hc.give ht hst hn hread hgave⟩
  | takeFin hgave htx hpast hdue hr =>
    exact ⟨N + 1, A, xs, ht.takeFin hgave htx hpast hr, hc.takeFin ht hgave htx hpast hdue hr⟩
  | blank _ hs => exact absurd ht.synced hs
  | sync seq r _ hs => exact absurd ht.synced hs

/-! ## The invariant -/

/-- The bytes of a connection to the peer. -/
structure StreamInv (isn : Seq) (stream : List Byte) (c : Cx) : Prop where
  tidy : c.Tidy
  gave : gaveAll c.log <+: stream
  carries : c.pcb.active → (¬c.pcb.state.synced ∧ c.pcb.rcv.Blank ∧ gaveAll c.log = []) ∨
    ∃ N A xs, Track (seqAdd isn 1) N A xs c ∧ Carries stream (seqAdd isn 1) N xs c

theorem Carries.first (hb : c.pcb.rcv.Blank) (hg : gaveAll c.log = []) :
    Carries stream b 0 [] c where
  gave := hg ▸ List.nil_prefix
  arrived := Nat.zero_le _
  held := fun x hx => by cases hx
  ring := fun f _ => by
    rintro i (⟨-, hi⟩ | ⟨x, hx, -⟩)
    · omega
    · cases hx
  fin := fun h => by rw [hb.finSeen] at h; cases h
  whole := fun h => by rw [hb.finRcvd] at h; cases h
  fresh := fun _ => ⟨rfl, rfl⟩

/-- A block that is given back gives nothing to the application. -/
theorem RcvAct.gave_closed {K : Kit} (h : RcvAct K c c') (hcl : c'.pcb.state = .closed) :
    gaveAll c'.log = gaveAll c.log := by
  cases h with
  | gone _ hg => exact hg
  | gave n data hst hrd =>
    rw [← hst, hcl] at hrd
    cases hrd
  | takeFin hg => exact hg
  | blank hg => exact hg
  | sync _ _ hg => exact hg
  | idle hq => exact hq.gave
  | advertise _ hq => exact hq.gave
  | setBuf _ hq => exact hq.gave
  | seeFin _ hq => exact hq.gave
  | deliver _ _ hq => exact hq.gave
  | store _ hq => exact hq.gave

theorem StreamInv.act (h : StreamInv isn stream c) (ha : Act (peerKit isn stream) c c') :
    StreamInv isn stream c' := by
  have htidy := h.tidy.act ha
  by_cases hact : c'.pcb.active
  · rcases h.carries (ha.active hact) with ⟨hs, hb, hg⟩ | ⟨N, A, xs, ht, hc⟩
    · rcases ha.rcv.unsynced hact hs hb hg with h' | ⟨seg, A, hsyn, ht, hb', hg'⟩
      · exact ⟨htidy, h'.2.2 ▸ List.nil_prefix, fun _ => .inl h'⟩
      · rw [hsyn] at ht
        exact ⟨htidy, hg' ▸ List.nil_prefix, fun _ => .inr ⟨0, A, [], ht, .first hb' hg'⟩⟩
    · obtain ⟨N', A', xs', ht', hc'⟩ := ha.rcv.carries hact ht hc
      exact ⟨htidy, hc'.gave, fun _ => .inr ⟨N', A', xs', ht', hc'⟩⟩
  · have hg := ha.rcv.gave_closed (htidy.resolve_left hact).1
    exact ⟨htidy, hg ▸ h.gave, fun h' => absurd h' hact⟩

theorem StreamInv.setTx (h : StreamInv isn stream c) (tx : Stream' Tx) :
    StreamInv isn stream (c.setTx tx) :=
  ⟨h.tidy, h.gave, fun hact => (h.carries hact).imp id fun ⟨N, A, xs, ht, hc⟩ =>
    ⟨N, A, xs, ⟨ht.pos, ht.synced, ht.past⟩,
      ⟨hc.gave, hc.arrived, hc.held, hc.ring, hc.fin, hc.whole, hc.fresh⟩⟩⟩

theorem StreamInv.fresh (isn : Seq) (stream : List Byte) (tx : Stream' Tx) :
    StreamInv isn stream (Conn.cx ⟨Pcb.fresh, []⟩ tx) :=
  ⟨.inl rfl, List.nil_prefix, fun _ => .inl ⟨Bool.false_ne_true, ⟨rfl, rfl, rfl, rfl⟩, rfl⟩⟩

theorem streamInv_reachable {s : Conn} (hs : (tcpRuns (FromPeer isn stream Recent)).Reachable s)
    (tx : Stream' Tx) : StreamInv isn stream (s.cx tx) :=
  tcp_invariant (fun _ _ => peerKit isn stream) (fun _ tx h => h.setTx tx)
    (StreamInv.fresh isn stream) (fun h ha => h.act ha) (fun h => peerKit_allows h) hs tx

/-- **Receive integrity.** Whatever arrives of the peer's stream and in whatever order, what the
application has been given is a prefix of the stream; and when the FIN has been consumed,
what it was given and what is left to read is the whole stream. -/
theorem receive_integrity {s : Conn}
    (hs : (tcpRuns (FromPeer isn stream Recent)).Reachable s) :
    gaveAll s.log <+: stream ∧ (s.pcb.active → s.pcb.rcv.finRcvd →
      (gaveAll s.log).length + s.pcb.rcv.avail = stream.length) := by
  have h := streamInv_reachable hs (Stream'.const .sent)
  refine ⟨h.gave, fun hact hf => ?_⟩
  rcases h.carries hact with ⟨-, hb, -⟩ | ⟨N, A, xs, ht, hc⟩
  · have := hb.finRcvd.symm.trans hf
    cases this
  · have havail : s.pcb.rcv.avail = N - (gaveAll s.log).length - s.pcb.rcv.fin := ht.pos.avail
    have hread : (gaveAll s.log).length + s.pcb.rcv.fin ≤ N := ht.pos.read
    have hwhole := hc.whole hf
    have hfin : s.pcb.rcv.fin = 1 := congrArg Bool.toNat hf
    omega

def peerOpens : (Op × Env) × (Op × Env) :=
  ((.accept 0 ⟨0, 0, { syn := true }, [], 65535, none, nil_fits, max_fits⟩ 0, .idle),
    (.rx ⟨1, 1, { ack := true }, [], 65535, none, nil_fits, max_fits⟩, .idle))

/-- The end of a stream of five bytes, with the FIN, arrives before its beginning. -/
def reordered : List (Op × Env) :=
  [(.rx ⟨4, 1, { ack := true, fin := true }, [4, 5], 65535, none, by decide, max_fits⟩, .idle),
    (.rx ⟨1, 1, { ack := true }, [1, 2, 3], 65535, none, by decide, max_fits⟩, .idle),
    (.recv 2, .idle)]

theorem receive_integrity_reordered : ∃ s : Conn, s.pcb.state = .closeWait ∧
    gaveAll s.log = [1, 2] ∧ gaveAll s.log <+: [1, 2, 3, 4, 5] ∧
    (gaveAll s.log).length + s.pcb.rcv.avail = 5 := by
  have h0 : (tcpRuns (FromPeer 0 [1, 2, 3, 4, 5] Recent)).Reachable ⟨Pcb.fresh, []⟩ :=
    .init ⟨rfl, trivial⟩
  have h1 := h0.step (l := peerOpens.1) ⟨(Option.some_get (by decide +kernel)).symm, rfl⟩
  have h2 := h1.step (l := peerOpens.2) ⟨(Option.some_get (by decide +kernel)).symm, fun _ =>
    ⟨fun h => absurd h (by decide +kernel), fun h => absurd h (by decide +kernel)⟩⟩
  have h3 := h2.step (l := reordered[0]) ⟨(Option.some_get (by decide +kernel)).symm, fun _ =>
    ⟨fun h => absurd h (by decide +kernel), fun _ =>
      ⟨3, ⟨rfl, by decide, by decide⟩, by decide +kernel, by decide +kernel⟩⟩⟩
  have h4 := h3.step (l := reordered[1]) ⟨(Option.some_get (by decide +kernel)).symm, fun _ =>
    ⟨fun h => absurd h (by decide +kernel), fun _ =>
      ⟨0, ⟨rfl, by decide, by decide⟩, by decide +kernel, by decide +kernel⟩⟩⟩
  have h5 := h4.step (l := reordered[2]) ⟨(Option.some_get (by decide +kernel)).symm, trivial⟩
  have h := receive_integrity h5
  exact ⟨_, by decide +kernel, by decide +kernel, h.1, h.2 (by decide +kernel) (by decide +kernel)⟩

/-! ## A full turn -/

/-- The byte after the first 2^32 of a stream; its number is that of the first. -/
def turnAhead : Segment := ⟨1, 1, { ack := true }, [1], 65535, none, by decide, max_fits⟩

-- the length stays a variable: nothing may write out a list of 2^32 zeros
theorem turnAhead_cut {n : Nat} (hn : n = 2 ^ 32) :
    CutAt 0 (List.replicate n 0 ++ [1]) n turnAhead where
  seq := by
    subst hn
    decide
  payload i hi := by
    obtain rfl : i = 0 := Nat.lt_one_iff.mp hi
    simp [turnAhead]
  fin := nofun

/-- **Without `Recent` integrity fails.** A segment whose numbers are in use for other bytes, here
because it comes from one turn ahead, is taken for those bytes. -/
theorem stale_segment_is_taken :
    ∃ (isn : Seq) (stream : List Byte) (s : Conn),
      (tcpRuns (FromPeer isn stream fun _ _ _ => True)).Reachable s ∧ s.pcb.state = .established ∧
      ¬gaveAll s.log <+: stream := by
  obtain ⟨n, hn⟩ : ∃ n, n = 2 ^ 32 := ⟨_, rfl⟩
  have hcut := turnAhead_cut hn
  have hfirst : (List.replicate n (0 : Byte) ++ [1])[0]? = some 0 := by
    rw [List.getElem?_append_left (by rw [List.length_replicate]; omega),
      List.getElem?_replicate, if_pos (by omega)]
  generalize List.replicate n (0 : Byte) ++ [1] = stream at hcut hfirst
  have hne : ∀ {gave : List Byte}, gave = [1] → ¬gave <+: stream := by
    rintro _ rfl ⟨rest, rfl⟩
    cases hfirst
  have h0 : (tcpRuns (FromPeer 0 stream fun _ _ _ => True)).Reachable ⟨Pcb.fresh, []⟩ :=
    .init ⟨rfl, trivial⟩
  have h1 := h0.step (l := peerOpens.1) ⟨(Option.some_get (by decide +kernel)).symm, rfl⟩
  have h2 := h1.step (l := peerOpens.2) ⟨(Option.some_get (by decide +kernel)).symm, fun _ =>
    ⟨fun h => absurd h (by decide +kernel), fun h => absurd h (by decide +kernel)⟩⟩
  have h3 := h2.step (l := ((.rx turnAhead, .idle) : Op × Env))
    ⟨(Option.some_get (by decide +kernel)).symm, fun _ =>
      ⟨fun h => absurd h (by decide +kernel), fun _ => ⟨n, hcut, trivial⟩⟩⟩
  have h4 := h3.step (l := ((.recv 1, .idle) : Op × Env))
    ⟨(Option.some_get (by decide +kernel)).symm, trivial⟩
  exact ⟨0, stream, _, h4, by decide +kernel, hne (by decide +kernel)⟩

end Zuzu.L5
