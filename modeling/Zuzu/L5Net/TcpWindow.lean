import Zuzu.L5Net.TcpReassembly
import Zuzu.L5Net.TcpWalk

/-!
# The receive window (`netd/transport/tcp_in.c`, `tcp_out.c:71-76`)

What the acts of netd do to the receiving side of a block (`RcvAct`), and from it the
invariant of the receive window over whole runs.

**Results.** `receive_window`: in every run, once the peer's SYN has arrived, `rcv_rsq`, `rcv_nxt`
and `rcv_adv` are in this order within one ring, the edge of the window
never moves back, and the out-of-order ranges are sorted with gaps between them
and lie above `rcv_nxt`, but for the number that a consumed FIN takes.
-/
namespace Zuzu.L5
open Zuzu.Core Serial Spans

/-- The peer's SYN has arrived. -/
def TcpState.synced : TcpState → Bool
  | .closed | .synSent => false
  | _ => true

/-- The peer's FIN has been consumed. -/
def TcpState.pastFin : TcpState → Bool
  | .closeWait | .lastAck | .closing | .timeWait => true
  | _ => false

variable {K : Kit} {c c' : Cx}

/-- An act that the receiving side does not notice. -/
structure RcvQuiet (c c' : Cx) : Prop where
  gave : gaveAll c'.log = gaveAll c.log
  synced : c'.pcb.state.synced = c.pcb.state.synced
  past : c.pcb.state.pastFin → c'.pcb.state.pastFin
  half : c'.pcb.state = .synRcvd → c.pcb.state = .synRcvd

/-- What an act does to the receiving side. -/
inductive RcvAct (K : Kit) (c c' : Cx) : Prop
  | gone : c'.pcb.active = false → gaveAll c'.log = gaveAll c.log → RcvAct K c c'
  | idle : RcvQuiet c c' → c'.pcb.rcv = c.pcb.rcv → RcvAct K c c'
  | advertise (mss : Nat) :
      RcvQuiet c c' → c'.pcb.rcv = c.pcb.rcv.advertise mss → RcvAct K c c'
  | setBuf (buf : Option (Nat → Byte)) :
      RcvQuiet c c' → buf = none ∨ c.pcb.state = .synRcvd →
      c'.pcb.rcv = { c.pcb.rcv with buf := buf } → RcvAct K c c'
  | seeFin (seg : Segment) :
      RcvQuiet c c' → c.pcb.state.texts → K.text c.recvCount seg →
      c'.pcb.rcv = c.pcb.rcv.seeFin seg → RcvAct K c c'
  | deliver (seg : Segment) (r : Rcv) :
      RcvQuiet c c' → c.pcb.state.texts → K.text c.recvCount seg → seg.payload ≠ [] →
      seg.seq = c.pcb.rcv.nxt → c.pcb.rcv.deliverData seg.payload = some r →
      c'.pcb.rcv = r.merge → RcvAct K c c'
  | store (seg : Segment) :
      RcvQuiet c c' → c.pcb.state.texts → K.text c.recvCount seg → seg.payload ≠ [] →
      seqLt c.pcb.rcv.nxt seg.seq →
      c.pcb.rcv.storeOoo seg.seq seg.payload = some c'.pcb.rcv → RcvAct K c c'
  | gave (n : Nat) (data : List Byte) :
      c'.pcb.state = c.pcb.state → c.pcb.state.reads → n ≤ c.pcb.rcv.avail →
      c.pcb.rcv.read n = some (c'.pcb.rcv, data) →
      gaveAll c'.log = gaveAll c.log ++ data → RcvAct K c c'
  | takeFin :
      gaveAll c'.log = gaveAll c.log → c.pcb.state.texts → c'.pcb.state.pastFin →
      c.pcb.rcv.finDue → c'.pcb.rcv = c.pcb.rcv.takeFin → RcvAct K c c'
  | blank :
      gaveAll c'.log = gaveAll c.log → ¬c.pcb.state.synced → ¬c'.pcb.state.synced →
      (c.pcb.rcv.Blank → c'.pcb.rcv.Blank) → RcvAct K c c'
  | sync (seg : Segment) (r : Rcv) :
      gaveAll c'.log = gaveAll c.log → ¬c.pcb.state.synced → c'.pcb.state.synced →
      K.syn seg → r = c.pcb.rcv.synced seg.seq →
      c'.pcb.rcv = r ∨ (∃ mss, c'.pcb.rcv = r.advertise mss) ∨
        (∃ b, c'.pcb.rcv = { r with buf := some b }) → RcvAct K c c'

theorem SAct.rcv (h : SAct K c c') : c'.pcb.rcv = c.pcb.rcv ∨
    ∃ mss, c'.pcb.rcv = c.pcb.rcv.advertise mss := by
  cases h with
  | advertise | bare | head | probe => exact .inr ⟨_, rfl⟩
  | data bytes fin => cases fin <;> exact .inr ⟨_, rfl⟩
  | fin => exact .inr ⟨_, rfl⟩
  | _ => exact .inl rfl

theorem Kept.quiet (h : Kept c c') : RcvQuiet c c' :=
  ⟨h.gave, by rw [h.state], by rw [h.state]; exact id, fun h' => h.state ▸ h'⟩

theorem tcpAbort_gave (c : Cx) : gaveAll (tcpAbort c).log = gaveAll c.log := by
  have h := (bare_acts (K := Kit.all) c (f := { rst := true, ack := true }) rfl rfl).kept.gave
  unfold tcpAbort tcpPcbRelease tcpBufsFree
  simpa [gaveAll] using h

theorem Act.rcv (h : Act K c c') : RcvAct K c c' := by
  cases h with
  | send h =>
    rcases h.rcv with hr | ⟨mss, hr⟩
    · exact .idle h.kept.quiet hr
    · exact .advertise mss h.kept.quiet hr
  | heard w => exact .idle ⟨by simp [gaveAll], rfl, id, id⟩ rfl
  | seeFin seg ht hK => exact .seeFin seg ⟨rfl, rfl, id, id⟩ ht hK rfl
  | deliver seg r ht hK hne hseq hr =>
    exact .deliver seg r ⟨rfl, rfl, id, id⟩ ht hK hne hseq hr rfl
  | store seg r ht hK hne hlt hr => exact .store seg ⟨rfl, rfl, id, id⟩ ht hK hne hlt hr
  | gave n r data hr _ hn hread => exact .gave n data rfl hr hn hread (by simp [gaveAll])
  | fault => exact .idle ⟨by simp [gaveAll], rfl, id, id⟩ rfl
  | takeFin ht hdue =>
    refine .takeFin rfl ht ?_ hdue rfl
    revert ht
    simp only [Cx.setState_pcb_state]
    cases c.pcb.state <;> decide
  | bury hst =>
    refine .setBuf none ⟨rfl, ?_, fun _ => rfl, fun h => by cases h⟩ (.inl rfl) rfl
    rcases hst with h | ⟨h, -⟩ <;> rw [h] <;> rfl
  | shut _ hst =>
    refine .idle ⟨rfl, ?_, ?_, ?_⟩ rfl
    all_goals
      revert hst
      simp only [Cx.setSnd_pcb_state, Cx.setState_pcb_state]
      cases c.pcb.state <;> decide
  | finWait2 hst =>
    refine .idle ⟨rfl, by rw [hst]; rfl, ?_, fun h => by cases h⟩ rfl
    rw [hst]
    exact fun h => absurd h Bool.false_ne_true
  | release => exact .gone rfl (by simp [tcpPcbRelease, tcpBufsFree, gaveAll])
  | connect isn hst =>
    refine .blank (by simp [Cx.emit, gaveAll]) (by rw [hst]; decide) Bool.false_ne_true ?_
    exact fun h => ⟨h.ranges, h.size, h.finSeen, h.finRcvd⟩
  | stillborn => exact .gone rfl (by simp [tcpPcbRelease, tcpBufsFree, gaveAll])
  | accept listener seg isn hst _ _ hsyn =>
    exact .sync seg _ (by simp [Cx.emit, gaveAll]) (by rw [hst]; decide) rfl hsyn rfl
      (.inr (.inl ⟨_, rfl⟩))
  | acceptLost listener seg isn hst _ _ hsyn =>
    exact .sync seg _ (by simp [gaveAll]) (by rw [hst]; decide) rfl hsyn rfl (.inl rfl)
  | cross seg hst hsyn => exact .sync seg _ rfl (by rw [hst]; decide) rfl hsyn rfl (.inl rfl)
  | syn ack hst => exact .advertise _ ⟨by simp [Cx.emit, gaveAll], rfl, id, id⟩ rfl
  | synLost => exact .idle ⟨rfl, rfl, id, id⟩ rfl
  | openActive seg b hst hsyn =>
    exact .sync seg _ (by simp [Cx.openActive, Cx.establish, gaveAll]) (by rw [hst]; decide)
      rfl hsyn rfl (.inr (.inr ⟨b, rfl⟩))
  | openPassive b hst =>
    refine .setBuf (some b) ⟨by simp [Cx.openPassive, Cx.establish, gaveAll], by rw [hst]; rfl, ?_,
      fun h => by cases h⟩ (.inr hst) rfl
    rw [hst]
    exact fun h => absurd h Bool.false_ne_true
  | abort => exact .gone rfl (tcpAbort_gave _)

/-! ## Positions along acts -/

/-- The receiving side of a block that has heard the peer's SYN, by position. Position 0 is
the first byte of the peer, and the bytes before the first unread one are those the
application was given. -/
structure Track (b : Seq) (N A : Nat) (xs : List Span) (c : Cx) : Prop where
  pos : c.pcb.rcv.At b (gaveAll c.log).length N A xs
  synced : c.pcb.state.synced
  past : c.pcb.rcv.finRcvd → c.pcb.state.pastFin

variable {b : Seq} {N A : Nat} {xs : List Span}

theorem Track.count (h : Track b N A xs c) : c.recvCount = N := by
  have hread := h.pos.read
  have hfull := h.pos.full
  have hfin := Rcv.fin_le c.pcb.rcv
  have hsz : tcpRcvBuf = 32768 := rfl
  unfold Cx.recvCount
  rw [h.pos.nxt, h.pos.rsq, toNat_fwd_sub (by omega) (by omega)]
  omega

theorem TcpState.not_pastFin {st : TcpState} (h : st.texts) : ¬st.pastFin := by
  revert h
  cases st <;> decide

theorem TcpState.synced_of_texts {st : TcpState} (h : st.texts) : st.synced := by
  revert h
  cases st <;> decide

theorem TcpState.synced_of_pastFin {st : TcpState} (h : st.pastFin) : st.synced := by
  revert h
  cases st <;> decide

theorem Track.no_fin (h : Track b N A xs c) (ht : c.pcb.state.texts) :
    c.pcb.rcv.finRcvd = false :=
  Bool.eq_false_iff.mpr fun hf => TcpState.not_pastFin ht (h.past hf)

/-- The same place, seen by an act that the receiving side does not notice. -/
theorem Track.quiet (h : Track b N A xs c) (hq : RcvQuiet c c') {N' A' : Nat} {xs' : List Span}
    (hp : c'.pcb.rcv.At b (gaveAll c.log).length N' A' xs')
    (hf : c'.pcb.rcv.finRcvd = c.pcb.rcv.finRcvd) : Track b N' A' xs' c' where
  pos := hq.gave ▸ hp
  synced := hq.synced.trans h.synced
  past := fun h' => hq.past (h.past (hf ▸ h'))

theorem Rcv.seeFin_finRcvd (r : Rcv) (seg : Segment) : (r.seeFin seg).finRcvd = r.finRcvd := by
  unfold Rcv.seeFin
  split <;> rfl

/-- Bytes go to the application. -/
theorem Track.give (h : Track b N A xs c) {n : Nat} {data : List Byte}
    (hst : c'.pcb.state = c.pcb.state) (hn : n ≤ c.pcb.rcv.avail)
    (hread : c.pcb.rcv.read n = some (c'.pcb.rcv, data))
    (hgave : gaveAll c'.log = gaveAll c.log ++ data) :
    Track b N A xs c' ∧ c'.pcb.rcv.finRcvd = c.pcb.rcv.finRcvd := by
  obtain ⟨hp, f, -, -, hdata⟩ := h.pos.readOut hn hread
  have hf : c'.pcb.rcv.finRcvd = c.pcb.rcv.finRcvd := by
    obtain ⟨g, -, hq⟩ := Option.map_eq_some_iff.mp hread
    exact (congrArg (fun q => q.1.finRcvd) hq).symm
  refine ⟨⟨?_, hst ▸ h.synced, ?_⟩, hf⟩
  · rw [hgave, List.length_append, hdata, Ring.length_get]
    exact hp
  · rw [hf, hst]
    exact h.past

theorem Track.takeFin (h : Track b N A xs c) (hgave : gaveAll c'.log = gaveAll c.log)
    (htx : c.pcb.state.texts) (hpast : c'.pcb.state.pastFin)
    (hr : c'.pcb.rcv = c.pcb.rcv.takeFin) : Track b (N + 1) A xs c' := by
  refine ⟨?_, TcpState.synced_of_pastFin hpast, fun _ => hpast⟩
  rw [hr, hgave]
  exact h.pos.takeFin (h.no_fin htx)

/-- How the position may move in one act. -/
def Moves (K : Kit) (c c' : Cx) (N N' A : Nat) : Prop :=
  N' = N ∨ (N ≤ N' ∧ N' ≤ A ∧ ∃ seg, K.text c.recvCount seg) ∨
    (N' = N + 1 ∧ c.pcb.rcv.fin = 0 ∧ c'.pcb.rcv.fin = 1)

theorem RcvAct.track (h : RcvAct K c c') (hact : c'.pcb.active) (ht : Track b N A xs c) :
    ∃ N' A' xs', Track b N' A' xs' c' ∧ A ≤ A' ∧ Moves K c c' N N' A ∧
      c.pcb.rcv.fin ≤ c'.pcb.rcv.fin := by
  cases h with
  | gone h _ => rw [h] at hact; cases hact
  | idle hq hr => exact ⟨N, A, xs, ht.quiet hq (hr ▸ ht.pos) (by rw [hr]), le_refl _, .inl rfl,
      by rw [hr]⟩
  | advertise mss hq hr =>
    obtain ⟨A', hle, hp⟩ := ht.pos.advertise mss
    exact ⟨N, A', xs, ht.quiet hq (hr ▸ hp) (by rw [hr]; rfl), hle, .inl rfl, by rw [hr]; rfl⟩
  | setBuf buf hq _ hr =>
    exact ⟨N, A, xs, ht.quiet hq (hr ▸ ht.pos.setBuf buf) (by rw [hr]), le_refl _, .inl rfl,
      by rw [hr]; rfl⟩
  | seeFin seg hq _ _ hr =>
    have hf := Rcv.seeFin_finRcvd c.pcb.rcv seg
    exact ⟨N, A, xs, ht.quiet hq (hr ▸ ht.pos.seeFin seg) (by rw [hr, hf]), le_refl _, .inl rfl,
      by rw [hr, Rcv.fin, Rcv.fin, hf]⟩
  | deliver seg r hq htx hK _ _ hd hr =>
    obtain ⟨hp, -, heq⟩ := ht.pos.deliver (ht.no_fin htx) hd rfl
    have hf : c'.pcb.rcv.finRcvd = c.pcb.rcv.finRcvd := by rw [hr, heq]
    have hge := absorb_ge (N + min seg.payload.length (A - N)) xs
    have hfin : c.pcb.rcv.fin = 0 := by rw [Rcv.fin, ht.no_fin htx]; rfl
    have hseen := ht.pos.seen
    have hle : (absorb (N + min seg.payload.length (A - N)) xs).1 ≤ A :=
      absorb_le (by omega) ht.pos.below
    exact ⟨_, A, _, ht.quiet hq (hr ▸ hp) hf, le_refl _, .inr (.inl ⟨by omega, hle, seg, hK⟩),
      by rw [Rcv.fin, Rcv.fin, hf]⟩
  | store seg hq htx hK hne hlt hs =>
    rcases ht.pos.store (ht.no_fin htx) hlt hne seg.short hs with hr | ⟨p, -, -, -, hp, -, heq⟩
    · exact ⟨N, A, xs, ht.quiet hq (hr ▸ ht.pos) (by rw [hr]), le_refl _, .inl rfl, by rw [hr]⟩
    · have hf : c'.pcb.rcv.finRcvd = c.pcb.rcv.finRcvd := by rw [heq]
      exact ⟨N, A, _, ht.quiet hq hp hf, le_refl _, .inl rfl, by rw [Rcv.fin, Rcv.fin, hf]⟩
  | gave n data hst _ hn hread hgave =>
    obtain ⟨ht', hf⟩ := ht.give hst hn hread hgave
    exact ⟨N, A, xs, ht', le_refl _, .inl rfl, by rw [Rcv.fin, Rcv.fin, hf]⟩
  | takeFin hgave htx hpast _ hr =>
    have h0 : c.pcb.rcv.fin = 0 := by rw [Rcv.fin, ht.no_fin htx]; rfl
    have h1 : c'.pcb.rcv.fin = 1 := by rw [hr]; rfl
    exact ⟨N + 1, A, xs, ht.takeFin hgave htx hpast hr, le_refl _, .inr (.inr ⟨rfl, h0, h1⟩),
      by omega⟩
  | blank _ hs => exact absurd ht.synced hs
  | sync seq r _ hs => exact absurd ht.synced hs

/-! ## The invariant -/

/-- The receiving side of a block in use. -/
def RcvInv (c : Cx) : Prop :=
  c.pcb.active → (¬c.pcb.state.synced ∧ c.pcb.rcv.Blank ∧ gaveAll c.log = []) ∨
    ∃ b N A xs, Track b N A xs c

theorem Rcv.Blank.advertise {r : Rcv} (h : r.Blank) (mss : Nat) : (r.advertise mss).Blank :=
  ⟨h.ranges, h.size, h.finSeen, h.finRcvd⟩

/-- The peer's SYN arrives. -/
theorem Rcv.Blank.track {r : Rcv} {seq : Seq} (h : c.pcb.rcv.Blank) (hgave : gaveAll c'.log = [])
    (hs : c'.pcb.state.synced) (hr : r = c.pcb.rcv.synced seq)
    (hr' : c'.pcb.rcv = r ∨ (∃ mss, c'.pcb.rcv = r.advertise mss) ∨
      (∃ b, c'.pcb.rcv = { r with buf := some b })) :
    ∃ A, Track (seqAdd seq 1) 0 A [] c' ∧ c'.pcb.rcv.Blank := by
  have hp : r.At (seqAdd seq 1) 0 0 tcpRcvBuf [] := hr ▸ h.synced seq
  have hb : r.Blank := hr ▸ ⟨h.ranges, h.size, h.finSeen, h.finRcvd⟩
  have hmk : ∀ {A}, c'.pcb.rcv.At (seqAdd seq 1) 0 0 A [] → c'.pcb.rcv.Blank →
      Track (seqAdd seq 1) 0 A [] c' ∧ c'.pcb.rcv.Blank := fun hp hb =>
    ⟨⟨by rw [hgave]; exact hp, hs, fun h => by rw [hb.finRcvd] at h; cases h⟩, hb⟩
  rcases hr' with hr' | ⟨mss, hr'⟩ | ⟨b, hr'⟩
  · exact ⟨_, hmk (hr' ▸ hp) (hr' ▸ hb)⟩
  · obtain ⟨A, -, hp⟩ := hp.advertise mss
    exact ⟨A, hmk (hr' ▸ hp) (hr' ▸ hb.advertise mss)⟩
  · exact ⟨_, hmk (hr' ▸ hp.setBuf _) (hr' ▸ ⟨hb.ranges, hb.size, hb.finSeen, hb.finRcvd⟩)⟩

/-- Before the peer's SYN nothing is received. -/
theorem RcvAct.unsynced (h : RcvAct K c c') (hact : c'.pcb.active) (hs : ¬c.pcb.state.synced)
    (hb : c.pcb.rcv.Blank) (hg : gaveAll c.log = []) :
    (¬c'.pcb.state.synced ∧ c'.pcb.rcv.Blank ∧ gaveAll c'.log = []) ∨
      ∃ seg A, K.syn seg ∧ Track (seqAdd seg.seq 1) 0 A [] c' ∧ c'.pcb.rcv.Blank ∧
        gaveAll c'.log = [] := by
  have htx : ∀ {P : Prop}, c.pcb.state.texts → P := fun h =>
    absurd (TcpState.synced_of_texts h) hs
  have hquiet : RcvQuiet c c' → ¬c'.pcb.state.synced ∧ gaveAll c'.log = [] := fun hq =>
    ⟨by rw [hq.synced]; exact hs, hq.gave.trans hg⟩
  cases h with
  | gone h _ => rw [h] at hact; cases hact
  | idle hq hr => exact .inl ⟨(hquiet hq).1, hr ▸ hb, (hquiet hq).2⟩
  | advertise mss hq hr => exact .inl ⟨(hquiet hq).1, hr ▸ hb.advertise mss, (hquiet hq).2⟩
  | setBuf buf hq _ hr =>
    exact .inl ⟨(hquiet hq).1, hr ▸ ⟨hb.ranges, hb.size, hb.finSeen, hb.finRcvd⟩, (hquiet hq).2⟩
  | seeFin _ _ h => exact htx h
  | deliver _ _ _ h => exact htx h
  | store _ _ h => exact htx h
  | gave n data _ h =>
    refine absurd ?_ hs
    revert h
    cases c.pcb.state <;> decide
  | takeFin _ h => exact htx h
  | blank hgave _ hs' hb' => exact .inl ⟨hs', hb' hb, hgave.trans hg⟩
  | sync seg r hgave _ hs' hK hr hr' =>
    obtain ⟨A, ht, hb'⟩ := hb.track (hgave.trans hg) hs' hr hr'
    exact .inr ⟨seg, A, hK, ht, hb', hgave.trans hg⟩

theorem RcvInv.act (h : RcvInv c) (ha : Act K c c') : RcvInv c' := by
  intro hact
  rcases h (ha.active hact) with ⟨hs, hb, hg⟩ | ⟨b, N, A, xs, ht⟩
  · rcases ha.rcv.unsynced hact hs hb hg with h' | ⟨seg, A, -, ht, -⟩
    · exact .inl h'
    · exact .inr ⟨_, _, _, _, ht⟩
  · obtain ⟨N', A', xs', ht', -⟩ := ha.rcv.track hact ht
    exact .inr ⟨b, N', A', xs', ht'⟩

theorem RcvInv.setTx (h : RcvInv c) (tx : Stream' Tx) : RcvInv (c.setTx tx) := fun hact =>
  (h hact).imp id fun ⟨b, N, A, xs, ht⟩ => ⟨b, N, A, xs, ht.pos, ht.synced, ht.past⟩

theorem RcvInv.fresh (tx : Stream' Tx) : RcvInv (Conn.cx ⟨Pcb.fresh, []⟩ tx) :=
  fun _ => .inl ⟨Bool.false_ne_true, ⟨rfl, rfl, rfl, rfl⟩, rfl⟩

theorem Kit.all_allows (env : Env) (c : Cx) (op : Op) : Kit.all.Allows env c op := by
  cases op with
  | rx seg =>
    exact fun _ => ⟨fun _ => ⟨fun _ => trivial, fun _ _ _ _ => trivial, fun _ _ _ => trivial⟩,
      fun _ => trivial, fun _ _ _ _ _ => trivial, fun _ _ => trivial, fun _ _ _ => trivial⟩
  | close => exact fun _ => trivial
  | accept => exact ⟨trivial, trivial⟩
  | _ => trivial

theorem rcvInv_reachable {s : Conn} (hs : tcpSystem.Reachable s) (tx : Stream' Tx) :
    RcvInv (s.cx tx) := by
  have hs' : (tcpRuns fun _ _ => True).Reachable s :=
    hs.restrict (fun _ => trivial) fun _ _ => trivial
  exact tcp_invariant (fun _ _ => Kit.all) (fun _ tx h => h.setTx tx) RcvInv.fresh
    (fun h ha => h.act ha) (fun _ => Kit.all_allows _ _ _) hs' tx

/-! ## The window over whole runs -/

namespace Rcv

/-- The out-of-order ranges, counted from the first unread byte. -/
def held (r : Rcv) : List Span := r.ranges.map fun x => (dist r.rsq x.start, dist r.rsq x.stop)

/-- `rcv_rsq`, `rcv_nxt`, `rcv_adv` and `rcv_rsq + rcv_size` are in this order on the circle, where
a consumed FIN adds one to `rcv_nxt` and may add one to `rcv_adv`. -/
def InOrder (r : Rcv) : Prop :=
  ∃ n a e, n ≤ a ∧ a ≤ r.size ∧ e ≤ r.fin ∧
    r.nxt = fwd r.rsq (n + r.fin) ∧ r.adv = fwd r.rsq (a + e)

/-- At most eight ranges, in order with gaps between them, all above `n` and none
beyond what was announced. -/
def RangesFrom (r : Rcv) (n : Nat) : Prop :=
  r.ranges.length ≤ tcpOooMax ∧ Apart n r.held ∧ ∀ x ∈ r.held, x.2 ≤ dist r.rsq r.adv

instance (r : Rcv) (n : Nat) : Decidable (r.RangesFrom n) :=
  inferInstanceAs (Decidable (_ ∧ _ ∧ _))

variable {R : Nat} {r : Rcv}

theorem At.inOrder (h : r.At b R N A xs) : r.InOrder := by
  have hfin := fin_le r
  have hread := h.read
  have hseen := h.seen
  have hroom := h.room
  have hfull := h.full
  have hpos : ∀ {k m}, k = R + m → fwd b k = fwd r.rsq m := by
    intro k m hk
    rw [h.rsq, fwd_fwd, hk]
  unfold InOrder
  rw [h.nxt, h.adv, h.size]
  rcases Nat.lt_or_ge (R + tcpRcvBuf) A with hA | hA
  · exact ⟨tcpRcvBuf, tcpRcvBuf, 1, le_refl _, le_refl _, by omega, hpos (by omega),
      hpos (by omega)⟩
  · exact ⟨N - R - r.fin, A - R, 0, by omega, by omega, by omega, hpos (by omega), hpos (by omega)⟩

theorem At.rangesFrom (h : r.At b R N A xs) : r.RangesFrom (dist r.rsq r.nxt - r.fin) := by
  have hfin := fin_le r
  have hread := h.read
  have hseen := h.seen
  have hroom := h.room
  have hfull := h.full
  have hsz : tcpRcvBuf = 32768 := rfl
  have hd : ∀ {k}, R ≤ k → k < R + 2 ^ 31 → dist r.rsq (fwd b k) = k - R := by
    intro k h1 h2
    rw [h.rsq]
    exact dist_fwd h1 (by omega)
  have hheld : r.held = xs.map fun x => (x.1 - R, x.2 - R) := by
    unfold held
    rw [h.ranges, List.map_map]
    refine List.map_congr_left fun x hx => ?_
    have := h.near x hx
    exact Prod.ext (hd (by omega) (by omega)) (hd (by omega) (by omega))
  refine ⟨by rw [h.ranges, List.length_map]; exact h.few, ?_, ?_⟩
  · rw [hheld, h.nxt, hd (by omega) (by omega)]
    have := h.apart.shift (m := R) (by omega)
    rwa [Nat.sub_right_comm] at this
  · rw [hheld, h.adv, hd (by omega) (by omega)]
    intro x hx
    obtain ⟨y, hy, rfl⟩ := List.mem_map.mp hx
    have := h.below y hy
    omega

end Rcv

/-- A step listens to one segment only, so the position moves by at most one window. -/
def onePass (n : Nat) : Kit := { Kit.all with text := fun k _ => k = n }

theorem onePass_allows {c : Cx} (env : Env) (op : Op) : (onePass c.recvCount).Allows env c op := by
  cases op with
  | rx seg =>
    exact fun _ => ⟨fun _ => ⟨fun _ => trivial, fun _ _ _ _ => trivial, fun _ _ _ => trivial⟩,
      fun _ => rfl, fun _ _ _ _ _ => trivial, fun _ _ => trivial, fun _ _ _ => trivial⟩
  | close => exact fun _ => trivial
  | accept => exact ⟨trivial, trivial⟩
  | _ => trivial

/-- Along the acts of one step the edge of the window moves on by less than two rings. -/
theorem Track.edge_acts (h : Track b N A xs c) (hacts : Acts (onePass N) c c')
    (hact : c'.pcb.active) : ∃ A', c'.pcb.rcv.adv = fwd b A' ∧ A ≤ A' ∧
      A' ≤ N + 2 * tcpRcvBuf + 1 := by
  have key : c'.pcb.active → ∃ N' A' xs', Track b N' A' xs' c' ∧ A ≤ A' ∧
      N' ≤ N + tcpRcvBuf + c'.pcb.rcv.fin := by
    refine hacts.keeps (J := fun c' => c'.pcb.active → ∃ N' A' xs', Track b N' A' xs' c' ∧ A ≤ A' ∧
      N' ≤ N + tcpRcvBuf + c'.pcb.rcv.fin) ?_ fun _ => ⟨N, A, xs, h, le_refl _, by omega⟩
    intro d d' hJ ha hact'
    obtain ⟨N₁, A₁, xs₁, ht, hA, hN⟩ := hJ (ha.active hact')
    obtain ⟨N₂, A₂, xs₂, ht', hA', hmove, hfin⟩ := ha.rcv.track hact' ht
    refine ⟨N₂, A₂, xs₂, ht', by omega, ?_⟩
    have hroom := ht.pos.room
    have hread := ht.pos.read
    rcases hmove with rfl | ⟨-, hle, seg, hK⟩ | ⟨rfl, h0, h1⟩
    · omega
    · -- the segment was listened to before anything had moved
      have : N₁ = N := ht.count.symm.trans hK
      omega
    · omega
  obtain ⟨N', A', xs', ht, hA, hN⟩ := key hact
  have hroom := ht.pos.room
  have hread := ht.pos.read
  have hfin := Rcv.fin_le c'.pcb.rcv
  exact ⟨A', ht.pos.adv, hA, by omega⟩

/-- **The receive window.** From the peer's SYN on, in every state that a connection
reaches: the three positions are in order within one ring; the ranges are at most eight, sorted,
with gaps, above `rcv_nxt` without the number of a consumed FIN and within what was
announced; and no step moves the edge of the window back. -/
theorem receive_window {s : Conn} (hs : tcpSystem.Reachable s) (hact : s.pcb.active)
    (hsyn : s.pcb.state.synced) :
    s.pcb.rcv.InOrder ∧ s.pcb.rcv.RangesFrom (dist s.pcb.rcv.rsq s.pcb.rcv.nxt - s.pcb.rcv.fin) ∧
    ∀ l s', tcpSystem.step s l s' → s'.pcb.active → seqLeq s.pcb.rcv.adv s'.pcb.rcv.adv := by
  obtain ⟨b, N, A, xs, ht⟩ := (rcvInv_reachable hs (Stream'.const .sent) hact).resolve_left
    fun h => h.1 hsyn
  refine ⟨ht.pos.inOrder, ht.pos.rangesFrom, fun l s' hst hact' => ?_⟩
  have ht' : Track b N A xs (s.cx l.2.tx) := ⟨ht.pos, ht.synced, ht.past⟩
  obtain ⟨tx, hacts⟩ := Conn.step_acts hst (onePass_allows (c := s.cx l.2.tx) l.2 l.1)
  rw [ht'.count] at hacts
  obtain ⟨A', hA', hle, hbound⟩ := ht'.edge_acts hacts hact'
  have hseen : N ≤ A + s.pcb.rcv.fin := ht.pos.seen
  have hfin := Rcv.fin_le s.pcb.rcv
  have hsz : tcpRcvBuf = 32768 := rfl
  have hA : s.pcb.rcv.adv = fwd b A := ht.pos.adv
  replace hA' : s'.pcb.rcv.adv = fwd b A' := hA'
  rw [hA, hA', seqLeq_fwd (by omega) (by omega)]
  exact hle

/-- The peer sends five bytes from eleven places ahead, and then ten bytes with a FIN: the held
range begins where the FIN leaves `rcv_nxt`. -/
def rangePastFin : List (Op × Env) :=
  [(.accept 0 ⟨0, 0, { syn := true }, [], 65535, none, nil_fits, max_fits⟩ 0, .idle),
    (.rx ⟨1, 1, { ack := true }, [], 65535, none, nil_fits, max_fits⟩, .idle),
    (.rx ⟨12, 1, { ack := true }, [1, 2, 3, 4, 5], 65535, none, by decide, max_fits⟩, .idle),
    (.rx ⟨1, 1, { ack := true, fin := true }, List.replicate 10 0, 65535, none, by decide,
      max_fits⟩, .idle)]

/-- The ranges do not always lie above `rcv_nxt`. -/
theorem range_at_rcvNxt : ∃ s, tcpSystem.Reachable s ∧ s.pcb.active ∧ s.pcb.state = .closeWait ∧
    ¬s.pcb.rcv.RangesFrom (dist s.pcb.rcv.rsq s.pcb.rcv.nxt) := by
  refine ⟨(rangePastFin.foldlM Conn.step ⟨Pcb.fresh, []⟩).get (by decide +kernel),
    ⟨_, rangePastFin, rfl, LTS.run_of_foldlM (Option.some_get _).symm⟩, ?_, ?_, ?_⟩
  all_goals decide +kernel

/-- The window after a segment out of order and before the FIN. -/
theorem receive_window_held : ∃ s : Conn, s.pcb.rcv.ranges.length = 1 ∧ s.pcb.rcv.InOrder ∧
    s.pcb.rcv.RangesFrom (dist s.pcb.rcv.rsq s.pcb.rcv.nxt - s.pcb.rcv.fin) := by
  let s := ((rangePastFin.take 3).foldlM Conn.step ⟨Pcb.fresh, []⟩).get (by decide +kernel)
  have h := receive_window (s := s)
    ⟨_, rangePastFin.take 3, rfl, LTS.run_of_foldlM (Option.some_get _).symm⟩ (by decide +kernel)
    (by decide +kernel)
  exact ⟨s, by decide +kernel, h.1, h.2.1⟩

end Zuzu.L5
