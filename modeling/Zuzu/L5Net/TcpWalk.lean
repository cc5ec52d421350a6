import Zuzu.L5Net.TcpActs

/-!
# Every entry point of netd is a sequence of acts

One lemma for each function of the TCP modules, from `TcpOutput` up to the timer
callbacks and `TcpDispatch`.

**Results.** `Op.acts`: an entry point is a sequence of acts of every kit that allows
what its inputs ask for. `tcp_invariant`: what every act keeps holds in every state of
every run.
-/
namespace Zuzu.L5
open Zuzu.Core Relation

variable {K : Kit} {c c' : Cx}
variable {env : Env} {r : Rcv} {s : Conn} {P : Prop}

/-! ## Sequences of acts -/

/-- What every act keeps holds after a sequence of acts. -/
theorem Acts.keeps {J : Cx → Prop} (hact : ∀ {c c'}, J c → Act K c c' → J c') (h : Acts K c c')
    (hc : J c) : J c' := by
  induction h with
  | refl => exact hc
  | tail _ ha ih => exact hact ih ha

/-- A block that was given back stays so. -/
theorem Act.active (h : Act K c c') (h' : c'.pcb.active) : c.pcb.active := by
  cases h with
  | send h => exact h.kept.active ▸ h'
  | release | stillborn | abort => cases h'
  | _ => exact h'

/-- An act of the sending side that leaves the callbacks alone. -/
def PAct (K : Kit) (c c' : Cx) : Prop := SAct K c c' ∧ c'.pcb.cb = c.pcb.cb

abbrev PActs (K : Kit) : Cx → Cx → Prop := ReflTransGen (PAct K)

/-- The fields that congestion control works on. -/
structure Cc where
  mss : Nat
  size : Nat
  cwnd : Nat
  ssthresh : Nat
  inRecovery : Bool

def Snd.cc (s : Snd) : Cc := ⟨s.mss, s.size, s.cwnd, s.ssthresh, s.inRecovery⟩

/-- What a function leaves alone that only sends. -/
def Cx.still (c : Cx) : Bool × Cc := (c.pcb.cb, c.pcb.snd.cc)

def QAct (K : Kit) (c c' : Cx) : Prop := SAct K c c' ∧ c'.still = c.still

abbrev QActs (K : Kit) : Cx → Cx → Prop := ReflTransGen (QAct K)

/-- An act that leaves the callbacks of a block in use alone, if `P`. -/
def CAct (K : Kit) (P : Prop) (c c' : Cx) : Prop :=
  Act K c c' ∧ (P → c'.pcb.active → c'.pcb.cb = c.pcb.cb)

abbrev CActs (K : Kit) (P : Prop) : Cx → Cx → Prop := ReflTransGen (CAct K P)

theorem PActs.acts (h : PActs K c c') : CActs K P c c' :=
  h.lift id fun _ _ h => ⟨.send h.1, fun _ _ => h.2⟩

theorem PActs.kept (h : PActs K c c') : Kept c c' :=
  SActs.kept (K := K) (h.lift id fun _ _ h => h.1)

theorem QActs.paced (h : QActs K c c') : PActs K c c' :=
  h.lift id fun _ _ h => ⟨h.1, congrArg Prod.fst h.2⟩

theorem QActs.acts (h : QActs K c c') : CActs K P c c' := h.paced.acts

theorem QActs.kept (h : QActs K c c') : Kept c c' := h.paced.kept

theorem QActs.still (h : QActs K c c') : c'.still = c.still := by
  induction h with
  | refl => rfl
  | tail _ h ih => exact h.2.trans ih

theorem QActs.cb (h : QActs K c c') : c'.pcb.cb = c.pcb.cb := congrArg Prod.fst h.still

theorem CActs.acts (h : CActs K P c c') : Acts K c c' := h.lift id fun _ _ h => h.1

theorem CActs.cb (h : CActs K P c c') (hP : P) (hact : c'.pcb.active) :
    c'.pcb.cb = c.pcb.cb := by
  induction h with
  | refl => rfl
  | tail _ h ih => exact (h.2 hP hact).trans (ih (h.1.active hact))

/-! ## Frames -/

theorem tcpOutput_cases (c : Cx) (f : Flags) (len : Nat) :
    (c.tx.head ≠ .sent ∧ tcpOutput c f len = (c.setTx c.tx.tail, false)) ∨
    (c.tx.head ≠ .sent ∧ tcpOutput c f len =
      ((c.setTx c.tx.tail).setRcv (c.pcb.rcv.advertise c.pcb.snd.mss), false)) ∨
    (c.pcb.snd.copyOut len = none ∧ tcpOutput c f len = ((c.setTx c.tx.tail).put .fault, false)) ∨
    (c.tx.head = .sent ∧ ∃ bytes, c.pcb.snd.copyOut len = some bytes ∧
      tcpOutput c f len = ((c.setTx c.tx.tail).emit f bytes, true)) := by
  unfold tcpOutput
  dsimp only
  split
  · rename_i h
    exact .inl ⟨by rw [h]; decide, rfl⟩
  · rename_i hfull
    split
    · rename_i h
      exact .inr (.inr (.inl ⟨h, rfl⟩))
    · rename_i bytes h
      split
      · rename_i href
        exact .inr (.inl ⟨by rw [href]; decide, rfl⟩)
      · rename_i href
        refine .inr (.inr (.inr ⟨?_, bytes, h, rfl⟩))
        cases hx : c.tx.head with
        | full => exact absurd hx hfull
        | refused => exact absurd hx href
        | sent => rfl

/-- A segment without data is lost or goes out. -/
theorem tcpOutput_bare {P : Cx × Bool → Prop} {f : Flags}
    (hlost : c.tx.head ≠ .sent → P (c.setTx c.tx.tail, false) ∧
      P ((c.setTx c.tx.tail).setRcv (c.pcb.rcv.advertise c.pcb.snd.mss), false))
    (hsent : c.tx.head = .sent → P ((c.setTx c.tx.tail).emit f [], true)) :
    P (tcpOutput c f 0) := by
  rcases tcpOutput_cases c f 0 with ⟨hx, h⟩ | ⟨hx, h⟩ | ⟨hc, _⟩ | ⟨hx, bytes, hc, h⟩
  · rw [h]
    exact (hlost hx).1
  · rw [h]
    exact (hlost hx).2
  · cases hc
  · cases hc
    rw [h]
    exact hsent hx

/-! ## The sending side -/

/-- A frame is offered. -/
theorem offer_acts (c : Cx) : QActs K c (c.setTx c.tx.tail) := .single ⟨.tx, rfl⟩

/-- The IP layer refuses it. -/
theorem refused_acts (c : Cx) :
    QActs K c ((c.setTx c.tx.tail).setRcv (c.pcb.rcv.advertise c.pcb.snd.mss)) :=
  (offer_acts c).tail ⟨.advertise, rfl⟩

theorem bare_acts (c : Cx) {f : Flags} (hs : f.syn = false) (hf : f.fin = false) :
    QActs K c (tcpOutput c f 0).1 :=
  tcpOutput_bare (P := fun r => QActs K c r.1) (fun _ => ⟨offer_acts c, refused_acts c⟩)
    fun _ => (offer_acts c).tail ⟨.bare f hs hf, rfl⟩

theorem ack_acts (c : Cx) : QActs K c (tcpAck c) := bare_acts c rfl rfl

theorem Snd.buf_of_copyOut {s : Snd} {len : Nat} (h : s.copyOut len = none) :
    s.buf = none ∧ len ≠ 0 := by
  unfold Snd.copyOut at h
  split at h
  · cases h
  · rename_i h0
    exact ⟨by simpa using h, h0⟩

theorem Snd.length_copyOut {s : Snd} {len : Nat} {bytes : List Byte}
    (h : s.copyOut len = some bytes) : bytes.length = len := by
  unfold Snd.copyOut at h
  split at h
  · rename_i h0
    cases h
    exact h0.symm
  · obtain ⟨b, -, rfl⟩ := Option.map_eq_some_iff.mp h
    exact Ring.length_get ..

theorem xmitSegment_acts {len : Nat} {fin : Bool} (h : c.pcb.snd.plan = some (len, fin)) :
    QActs K c (xmitSegment c len fin).1 := by
  have hcopy : (c.markFin fin).pcb.snd.copyOut len = c.pcb.snd.copyOut len := by cases fin <;> rfl
  -- the FIN is marked although the segment is not sent
  have hlost : ∀ {d : Cx}, d.pcb.snd.plan = some (len, fin) → d.tx.head ≠ .sent ∨ .fault ∈ d.log →
      QActs K d ((d.markFin fin).setTx (d.markFin fin).tx.tail) := by
    intro d hd hx
    cases fin with
    | false => exact .single ⟨.tx, rfl⟩
    | true => exact .single ⟨.finLost len hd hx, rfl⟩
  have hhead : (c.markFin fin).tx.head = c.tx.head := by cases fin <;> rfl
  unfold xmitSegment
  rcases tcpOutput_cases (c.markFin fin) { ack := true, fin := fin } len with
    ⟨hx, h'⟩ | ⟨hx, h'⟩ | ⟨hc, h'⟩ | ⟨_, bytes, hc, h'⟩
  · rw [h']
    exact hlost h (.inl (hhead ▸ hx))
  · rw [h']
    exact (hlost h (.inl (hhead ▸ hx))).tail ⟨.advertise, rfl⟩
  · rw [h']
    have hbuf := (Snd.buf_of_copyOut (hcopy ▸ hc)).1
    have hf : QActs K c (c.put .fault) :=
      .single ⟨.fault hbuf (.inl (by rw [h]; exact Option.some_ne_none _)), rfl⟩
    refine hf.trans ?_
    have := hlost (d := c.put .fault) h (.inr (by simp))
    cases fin <;> exact this
  · rw [h']
    have hlen := Snd.length_copyOut hc
    have hd : SAct K (c.setTx c.tx.tail) _ :=
      .data bytes fin (by rw [hlen]; exact h) (by rw [hlen]; exact hcopy ▸ hc)
    cases fin <;> exact (offer_acts c).tail ⟨hd, rfl⟩

theorem xmitLoop_acts : ∀ (rounds : Nat) (c : Cx) (sent : Bool),
    QActs K c (xmitLoop rounds c sent).1
  | 0, _, _ => .refl
  | rounds + 1, c, sent => by
    unfold xmitLoop
    split
    · exact .refl
    · rename_i len fin h
      have hs := xmitSegment_acts (K := K) h
      dsimp only
      split
      · exact hs.trans (xmitLoop_acts rounds _ true)
      · exact hs

theorem xmitFin_acts (c : Cx) (sent : Bool) : QActs K c (xmitFin c sent).1 := by
  unfold xmitFin
  split
  · rename_i hfin
    exact tcpOutput_bare
      (P := fun r => QActs K c (if r.2 then (r.1.markFin true, true) else (r.1, sent)).1)
      (fun _ => ⟨offer_acts c, refused_acts c⟩)
      fun _ => (offer_acts c).tail ⟨.fin hfin.1 hfin.2.1 hfin.2.2, rfl⟩
  · exact .refl

theorem pace_acts (c : Cx) (s : Snd)
    (h : s = c.pcb.snd.setPace ⟨s.cwnd, s.ssthresh, s.dupacks, s.blocked⟩) :
    PActs K c (c.setSnd s) := by
  rw [h]
  exact .single ⟨.pace _, rfl⟩

theorem clocks_acts (c : Cx) (k : Clocks) (hcb : k.cb = c.pcb.cb) : QActs K c (c.setClocks k) :=
  .single ⟨.clocks k, congrArg (·, c.pcb.snd.cc) hcb⟩

theorem xmitTimers_acts (c : Cx) (sent : Bool) : QActs K c (xmitTimers c sent) := by
  cases sent with
  | false => exact clocks_acts c ⟨c.pcb.rtoTimer, _, c.pcb.retries, c.pcb.cb⟩ rfl
  | true => exact clocks_acts c ⟨true, _, c.pcb.retries, c.pcb.cb⟩ rfl

theorem xmit_acts (c : Cx) : QActs K c (tcpXmit c) := by
  have hl := xmitLoop_acts (K := K) ((c.pcb.snd.dataEnd - c.pcb.snd.nxt).toNat + 1) c false
  unfold tcpXmit
  dsimp only
  split
  · exact hl
  · exact (hl.trans (xmitFin_acts _ _)).trans (xmitTimers_acts _ _)

/-- A segment without data from another place. -/
theorem probe_acts (c : Cx) :
    QActs K c (outputAt c (c.pcb.snd.una - 1) { ack := true } 0) :=
  tcpOutput_bare (P := fun r => QActs K c (r.1.setSnd { r.1.pcb.snd with nxt := _ }))
    (fun _ => ⟨offer_acts c, refused_acts c⟩) fun _ => (offer_acts c).tail ⟨.probe, rfl⟩

theorem retransmitHead_acts (hK : K.head c.pcb.snd)
    (hout : c.pcb.snd.max ≠ c.pcb.snd.una ∨
      (c.pcb.snd.inRecovery ∧ ¬seqLeq c.pcb.snd.recover c.pcb.snd.una)) :
    QActs K c (tcpRetransmitHead c) := by
  unfold tcpRetransmitHead outputAt
  rcases tcpOutput_cases (c.setSnd { c.pcb.snd with nxt := c.pcb.snd.una })
      { ack := true, fin := c.pcb.snd.head.2 } c.pcb.snd.head.1
    with ⟨_, h⟩ | ⟨_, h⟩ | ⟨hc, h⟩ | ⟨_, bytes, hc, h⟩
  · rw [h]
    exact offer_acts c
  · rw [h]
    exact refused_acts c
  · rw [h]
    have hbuf := Snd.buf_of_copyOut hc
    exact (offer_acts c).tail ⟨.fault hbuf.1 (.inr hbuf.2), rfl⟩
  · rw [h]
    exact (offer_acts c).tail ⟨.head bytes hK hout hc, rfl⟩

theorem persistCb_acts (c : Cx) : QActs K c (tcpPersistCb c) := by
  have h0 : QActs K c (c.setPersist false) :=
    clocks_acts c ⟨c.pcb.rtoTimer, false, c.pcb.retries, c.pcb.cb⟩ rfl
  unfold tcpPersistCb
  dsimp only
  split
  · exact h0.trans (xmit_acts _)
  · refine (h0.trans (probe_acts _)).trans ?_
    exact clocks_acts _ ⟨_, true, _, _⟩ rfl

theorem send_acts (env : Env) (c : Cx) (data : List Byte) : QActs K c (tcpSend env c data).1 := by
  unfold tcpSend
  split
  · exact .refl
  · rename_i hst
    have hw : c.pcb.state.writes := by
      revert hst
      cases c.pcb.state <;> decide
    split
    · exact .refl
    · -- the ring is there, or it is allocated now
      have ha : QActs K c
          (c.setSnd { c.pcb.snd with buf := some (c.pcb.snd.buf.getD env.heap) }) := by
        cases hb : c.pcb.snd.buf with
        | none => exact .single ⟨.alloc _ hw hb, rfl⟩
        | some b =>
          have : c.setSnd { c.pcb.snd with buf := some ((some b).getD env.heap) } = c := by
            rw [Option.getD_some, ← hb]
            rfl
          rw [this]
      dsimp only
      split
      · exact ha.tail ⟨.pace ⟨_, _, _, true⟩, rfl⟩
      · refine ReflTransGen.trans ?_ (xmit_acts _)
        split
        · refine (ha.tail ⟨.pace ⟨_, _, _, true⟩, rfl⟩).tail ⟨.took _ hw (Option.some_ne_none _) ?_, rfl⟩
          exact (List.length_take_le _ _).trans (min_le_right _ _)
        · refine ha.tail ⟨.took _ hw (Option.some_ne_none _) ?_, rfl⟩
          exact (List.length_take_le _ _).trans (min_le_right _ _)

/-! ## Acknowledgements -/

/-- The kit takes the ACK of a segment and what follows from it. -/
structure Kit.Acks (K : Kit) (s : Snd) (seg : Segment) : Prop where
  new : s.isNewAck seg → K.ack s seg.ack
  dup : s.isDupAck seg → ¬s.inRecovery → (s.dupacks + 1) % 2 ^ 32 = 3 → seqLeq s.recover s.una →
    K.head { Snd.halve { s with dupacks := (s.dupacks + 1) % 2 ^ 32 } with inRecovery := true }
  part : s.isNewAck seg → s.inRecovery → ¬seqLeq s.recover seg.ack → K.head (s.acked seg.ack)

/-- A loss is noticed. -/
theorem halve_acts (b : Bool) (hh : ¬c.pcb.state.halfOpen)
    (hne : c.pcb.snd.max ≠ c.pcb.snd.una) :
    PActs K c (c.setSnd { c.pcb.snd.halve with inRecovery := b }) :=
  (pace_acts _ _ rfl).head ⟨SAct.recover b hh hne, rfl⟩

theorem resend_acts (hh : ¬c.pcb.state.halfOpen) (hne : c.pcb.snd.max ≠ c.pcb.snd.una)
    (hK : K.head { c.pcb.snd.halve with inRecovery := true }) :
    PActs K c (tcpRetransmitHead (c.setSnd { c.pcb.snd.halve with inRecovery := true })) :=
  (halve_acts true hh hne).trans (QActs.paced (retransmitHead_acts hK (.inl hne)))

theorem onDupAck_acts {seg : Segment} (hh : ¬c.pcb.state.halfOpen)
    (hK : K.Acks c.pcb.snd seg) (hd : c.pcb.snd.isDupAck seg) :
    PActs K c (tcpOnDupAck c) := by
  have hne : c.pcb.snd.max ≠ c.pcb.snd.una := by
    exact (of_decide_eq_true hd).2.2.2.2.2
  have h0 : PActs K c
      (c.setSnd { c.pcb.snd with dupacks := (c.pcb.snd.dupacks + 1) % 2 ^ 32 }) :=
    pace_acts _ _ rfl
  unfold tcpOnDupAck
  dsimp only
  split
  · exact h0.trans (pace_acts _ _ rfl)
  · rename_i hrec
    split
    · rename_i h3
      have h1 := h0.trans (resend_acts hh hne (hK.dup hd hrec h3.1 h3.2))
      generalize tcpRetransmitHead _ = d at h1 ⊢
      exact h1.trans (pace_acts d _ rfl)
    · exact h0

/-- Recovery does not end. -/
theorem Snd.acked_eq_ackTo {s : Snd} {ack : Seq} (h : s.inRecovery → ¬seqLeq s.recover ack) :
    s.acked ack = s.ackTo ack := by
  have hb : (s.inRecovery && !seqLeq s.recover ack) = s.inRecovery := by
    cases hr : s.inRecovery with
    | false => rfl
    | true => simp [h hr]
  unfold Snd.acked
  rw [hb]
  rfl

theorem ackCwnd_acts {ack : Seq} (hh : ¬c.pcb.state.halfOpen) (hK : K.ack c.pcb.snd ack)
    (hlt : seqLt c.pcb.snd.una ack) (hle : seqLeq ack c.pcb.snd.max)
    (hpart : c.pcb.snd.inRecovery → ¬seqLeq c.pcb.snd.recover ack → K.head (c.pcb.snd.acked ack))
    (retries acked : Nat) :
    PActs K c (ackCwnd ((c.setSnd (c.pcb.snd.ackTo ack)).setRetries retries) acked) := by
  have h0 : PActs K c (c.setSnd (c.pcb.snd.acked ack)) := .single ⟨.acked ack hh hK hlt hle, rfl⟩
  have h1 : PActs K c ((c.setSnd (c.pcb.snd.acked ack)).setRetries retries) :=
    h0.trans (clocks_acts _ ⟨_, _, _, _⟩ rfl).paced
  unfold ackCwnd
  split
  · rename_i hrec
    replace hrec : c.pcb.snd.inRecovery = true := hrec
    split
    · rename_i hdone
      have he : c.pcb.snd.acked ack = { c.pcb.snd.ackTo ack with inRecovery := false } := by
        unfold Snd.acked
        rw [show seqLeq c.pcb.snd.recover ack = true from hdone]
        simp
      rw [he] at h1
      exact h1.trans (pace_acts _ _ rfl)
    · rename_i hdone
      have he : c.pcb.snd.acked ack = _ := Snd.acked_eq_ackTo fun _ => hdone
      have hk := hpart hrec hdone
      rw [he] at h1 hk
      have h2 := h1.trans (QActs.paced (retransmitHead_acts hk (.inr ⟨hrec, hdone⟩)))
      generalize tcpRetransmitHead _ = d at h2 ⊢
      exact h2.trans (pace_acts d _ rfl)
  · rename_i hrec
    have he : c.pcb.snd.acked ack = _ := Snd.acked_eq_ackTo fun h => absurd h hrec
    rw [he] at h1
    exact h1.trans (pace_acts _ _ rfl)

/-- A loop whose rounds are sequences of steps is one. -/
theorem foldl_steps {α : Type} {r : Cx → Cx → Prop} {f : Cx → α → Cx}
    (hf : ∀ c a, ReflTransGen r c (f c a)) (l : List α) (c : Cx) :
    ReflTransGen r c (l.foldl f c) := by
  induction l generalizing c with
  | nil => exact .refl
  | cons a l ih => exact (hf c a).trans (ih _)

/-- A loop whose rounds leave something alone leaves it alone. -/
theorem foldl_keeps {σ α β : Type*} {g : σ → β} {f : σ → α → σ} (hf : ∀ c a, g (f c a) = g c)
    (l : List α) (c : σ) : g (l.foldl f c) = g c := by
  induction l generalizing c with
  | nil => rfl
  | cons a l ih => exact (ih _).trans (hf c a)

theorem notifyWritable_acts (env : Env) (c : Cx) : QActs K c (notifyWritable env c) := by
  unfold notifyWritable
  split
  · exact foldl_steps (send_acts env) _ _
  · exact .refl

theorem processAck_acts {seg : Segment} (hh : ¬c.pcb.state.halfOpen)
    (hK : K.Acks c.pcb.snd seg) : PActs K c (tcpProcessAck env c seg).1 := by
  unfold tcpProcessAck
  split
  · rename_i hd
    exact onDupAck_acts hh hK hd
  · split
    · exact .refl
    · rename_i hnew
      rw [not_not] at hnew
      have hacc : seg.flags.ack ∧ seqLt c.pcb.snd.una seg.ack ∧ seqLeq seg.ack c.pcb.snd.max := by
        exact of_decide_eq_true hnew
      have h1 := ackCwnd_acts hh (hK.new hnew) hacc.2.1 hacc.2.2 (hK.part hnew) 0
        (min (seg.ack - c.pcb.snd.una).toNat c.pcb.snd.buffered)
      dsimp only
      generalize ackCwnd _ _ = d at h1 ⊢
      have h2 : PActs K c (d.setRto (d.pcb.snd.max ≠ d.pcb.snd.una)) :=
        h1.trans (clocks_acts d ⟨_, d.pcb.persistTimer, d.pcb.retries, d.pcb.cb⟩ rfl).paced
      split
      · refine ReflTransGen.trans ?_ (notifyWritable_acts env _).paced
        exact h2.trans (pace_acts _ _ rfl)
      · exact h2

/-! ## Received data -/

theorem recv_acts (c : Cx) (sz : Nat) : CActs K P c (tcpRecv c sz).1 := by
  unfold tcpRecv
  split
  · exact .refl
  · rename_i hst
    have hr : c.pcb.state.reads := by
      revert hst
      cases c.pcb.state <;> decide
    dsimp only
    split
    · exact .refl
    · rename_i hn
      split
      · rename_i hnone
        have hbuf : c.pcb.rcv.buf = none := by simpa [Rcv.read] using hnone
        exact .single ⟨.fault hbuf (.inr hr), fun _ _ => rfl⟩
      · rename_i r data hread
        have hg : CActs K P c ((c.setRcv r).put (.gave data)) :=
          .single ⟨.gave _ r data hr hn (min_le_right _ _) hread, fun _ _ => rfl⟩
        split
        · exact hg.trans (ack_acts _).acts
        · exact hg

/-- `TcpRecv` leaves the state alone and the block in use. -/
theorem recv_kept (c : Cx) (sz : Nat) : (tcpRecv c sz).1.pcb.state = c.pcb.state ∧
    (tcpRecv c sz).1.pcb.active = c.pcb.active := by
  unfold tcpRecv
  split
  · exact ⟨rfl, rfl⟩
  dsimp only
  split
  · exact ⟨rfl, rfl⟩
  split
  · exact ⟨rfl, rfl⟩
  split
  · rename_i r data _ _
    have hk := (ack_acts (K := Kit.all) ((c.setRcv r).put (.gave data))).kept
    exact ⟨hk.state, hk.active⟩
  · exact ⟨rfl, rfl⟩

theorem notifyData_acts (env : Env) (c : Cx) : CActs K P c (notifyData env c) := by
  unfold notifyData
  split
  · exact foldl_steps recv_acts _ _
  · exact .refl

theorem notifyClose_acts (env : Env) (c : Cx) : CActs K P c (notifyClose env c) := by
  unfold notifyClose
  split
  · exact foldl_steps recv_acts _ _
  · exact .refl

theorem notifyData_state (env : Env) (c : Cx) :
    (notifyData env c).pcb.state = c.pcb.state := by
  unfold notifyData
  split
  · exact foldl_keeps (g := fun c : Cx => c.pcb.state) (fun c n => (recv_kept c n).1) _ _
  · rfl

/-- Output does not look at the state. -/
theorem tcpOutput_setState (c : Cx) (st : TcpState) (f : Flags) (len : Nat) :
    tcpOutput (c.setState st) f len =
      ((tcpOutput c f len).1.setState st, (tcpOutput c f len).2) := by
  obtain ⟨p, log, tx⟩ := c
  unfold tcpOutput
  simp only [Cx.setState, Cx.setTx]
  by_cases hfull : tx.head = .full
  · simp only [hfull, if_true]
  · simp only [hfull, if_false]
    cases p.snd.copyOut len with
    | none => rfl
    | some bytes =>
      by_cases href : tx.head = .refused
      · simp only [href, if_true]
        rfl
      · simp only [href, if_false]
        rfl

theorem consumeFin_acts (env : Env) (ht : c.pcb.state.texts) : CActs K P c (consumeFin env c).1 := by
  unfold consumeFin
  split
  · exact .refl
  · rename_i hdue
    rw [not_not] at hdue
    have h1 : CActs K P c ((c.setRcv c.pcb.rcv.takeFin).setState c.pcb.state.afterFin) :=
      .single ⟨.takeFin ht hdue, fun _ _ => rfl⟩
    have h2 := h1.trans (ack_acts _).acts
    have hst : (tcpAck (c.setRcv c.pcb.rcv.takeFin)).pcb.state = c.pcb.state :=
      (ack_acts (K := Kit.all) _).kept.state
    rw [tcpAck, tcpOutput_setState] at h2
    dsimp only
    rw [hst]
    cases hs : c.pcb.state with
    | established =>
      rw [hs] at h2
      exact h2.trans (notifyClose_acts env _)
    | finWait1 =>
      rw [hs] at h2
      exact h2
    | finWait2 =>
      rw [hs] at h2
      exact h2.tail ⟨.bury (.inl rfl), fun _ _ => rfl⟩
    | _ => rw [hs] at ht; cases ht

theorem Rcv.buf_of_write {seq : Seq} {data : List Byte} (h : r.write seq data = none) :
    r.buf = none := by
  unfold Rcv.write at h
  split at h
  · cases h
  · simpa using h

theorem Rcv.buf_of_deliverData {payload : List Byte} (h : r.deliverData payload = none) :
    r.buf = none :=
  Rcv.buf_of_write (Option.map_eq_none_iff.mp h)

theorem Rcv.buf_of_storeOoo {seq : Seq} {payload : List Byte}
    (h : r.storeOoo seq payload = none) : r.buf = none := by
  unfold Rcv.storeOoo at h
  dsimp only at h
  split at h
  · cases h
  · split at h
    · cases h
    · split at h
      · cases h
      · exact Rcv.buf_of_write (Option.map_eq_none_iff.mp h)

theorem recvPayload_acts (env : Env) {seg : Segment} (ht : c.pcb.state.texts)
    (hK : K.text c.recvCount seg) :
    CActs K P c (recvPayload env c seg).1 ∧ (recvPayload env c seg).1.pcb.state = c.pcb.state := by
  unfold recvPayload
  split
  · exact ⟨.refl, rfl⟩
  · rename_i hne
    split
    · rename_i hseq
      unfold recvInOrder
      split
      · rename_i hnone
        exact ⟨.single ⟨.fault (Rcv.buf_of_deliverData hnone) (.inl ht), fun _ _ => rfl⟩, rfl⟩
      · rename_i r hr
        have h1 : CActs K P c (c.setRcv r.merge) := .single ⟨.deliver seg r ht hK hne hseq hr, fun _ _ => rfl⟩
        dsimp only
        split
        · exact ⟨h1.trans (notifyData_acts env _), notifyData_state env _⟩
        · have ha := ack_acts (K := K) (c.setRcv r.merge)
          exact ⟨(h1.trans ha.acts).trans (notifyData_acts env _),
            (notifyData_state env _).trans ha.kept.state⟩
    · split
      · rename_i hlt
        cases hst : c.pcb.rcv.storeOoo seg.seq seg.payload with
        | none =>
          have h1 : CActs K P c (c.put .fault) :=
            .single ⟨.fault (Rcv.buf_of_storeOoo hst) (.inl ht), fun _ _ => rfl⟩
          have ha := ack_acts (K := K) (c.put .fault)
          exact ⟨h1.trans ha.acts, ha.kept.state⟩
        | some r =>
          have h1 : CActs K P c (c.setRcv r) := .single ⟨.store seg r ht hK hne hlt hst, fun _ _ => rfl⟩
          have ha := ack_acts (K := K) (c.setRcv r)
          exact ⟨h1.trans ha.acts, ha.kept.state⟩
      · have ha := ack_acts (K := K) c
        exact ⟨ha.acts, ha.kept.state⟩

theorem recvText_acts {seg : Segment} (ht : c.pcb.state.texts)
    (hK : K.text c.recvCount seg) : CActs K P c (tcpRecvText env c seg) := by
  have h0 : CActs K P c (c.setRcv (c.pcb.rcv.seeFin seg)) := .single ⟨.seeFin seg ht hK, fun _ _ => rfl⟩
  have hcount : (c.setRcv (c.pcb.rcv.seeFin seg)).recvCount = c.recvCount := by
    unfold Cx.recvCount Rcv.seeFin
    split <;> rfl
  obtain ⟨h1, hs1⟩ := recvPayload_acts (K := K) (c := c.setRcv (c.pcb.rcv.seeFin seg)) env ht
    (hcount.symm ▸ hK)
  have h2 := (h0.trans h1).trans (consumeFin_acts env (by rw [hs1]; exact ht))
  unfold tcpRecvText
  dsimp only
  split
  · exact h2.trans (ack_acts _).acts
  · exact h2

/-! ## Opening and closing -/

theorem close_acts (hK : c.pcb.state.writes ∨ c.pcb.state = .synRcvd → K.shut c) :
    CActs K P c (tcpClose c).1 := by
  have hshut : ∀ h : c.pcb.state.writes ∨ c.pcb.state = .synRcvd, CActs K P c
      (tcpXmit ((c.setState c.pcb.state.afterClose).setSnd
        { c.pcb.snd with finPending := true })) := fun h =>
    ReflTransGen.head ⟨.shut (hK h) h, fun _ _ => rfl⟩ (xmit_acts _).acts
  unfold tcpClose
  cases hs : c.pcb.state with
  | synSent => exact .single ⟨.release .ok (by simp [hs]), nofun⟩
  | established | closeWait =>
    rw [hs] at hshut
    exact hshut (.inl rfl)
  | synRcvd =>
    rw [hs] at hshut
    exact hshut (.inr rfl)
  | _ => exact .refl

theorem notifyEstablished_acts (hK : env.onEstablished → K.shut c) :
    CActs K P c (notifyEstablished env c) := by
  unfold notifyEstablished
  split
  · rename_i h
    exact close_acts fun _ => hK h.2
  · exact .refl

/-- A SYN is offered, again or in answer to another. -/
theorem syn_acts (hh : c.pcb.state.halfOpen) (ack : Bool) :
    CActs K P c (tcpOutput (c.setSnd { c.pcb.snd with nxt := c.pcb.snd.una })
      { syn := true, ack := ack } 0).1 := by
  refine tcpOutput_bare (P := fun r => CActs K P c r.1) (fun hx => ?_) fun _ => ?_
  · have hlost : CActs K P c _ := .single ⟨.synLost hh hx, fun _ _ => rfl⟩
    exact ⟨hlost.trans (offer_acts _).acts, hlost.trans (refused_acts _).acts⟩
  · exact (offer_acts c).acts.tail ⟨.syn ack hh, fun _ _ => rfl⟩

theorem rtoResend_acts (hne : c.pcb.snd.max ≠ c.pcb.snd.una) : CActs K P c (rtoResend c) := by
  unfold rtoResend
  dsimp only
  split
  · rename_i hh
    have h := syn_acts (K := K) (c := c) (P := P) hh (c.pcb.state ≠ .synSent)
    exact h.trans (clocks_acts _ ⟨_, _, _, _⟩ rfl).acts
  · rename_i hh
    have h1 : PActs K c _ := .single ⟨.rewind hh, rfl⟩
    have h2 := h1.trans (halve_acts false hh hne)
    have h3 := h2.tail
      ⟨.pace ⟨c.pcb.snd.mss, c.pcb.snd.halve.ssthresh, 0, c.pcb.snd.blocked⟩, rfl⟩
    exact PActs.acts (h3.trans (xmit_acts _).paced)

theorem rtoCb_acts (c : Cx) : CActs K P c (tcpRtoCb c) := by
  have h0 : CActs K P c (c.setRto false) :=
    (clocks_acts c ⟨false, c.pcb.persistTimer, c.pcb.retries, c.pcb.cb⟩ rfl).acts
  unfold tcpRtoCb
  dsimp only
  split
  · exact h0
  · rename_i hne
    have h1 : CActs K P c ((c.setRto false).setRetries (c.pcb.retries + 1)) :=
      (clocks_acts c ⟨false, c.pcb.persistTimer, c.pcb.retries + 1, c.pcb.cb⟩ rfl).acts
    split
    · exact h1.tail ⟨.release .timeout (by simp), nofun⟩
    · exact h1.trans (rtoResend_acts hne)

/-- What follows when the connection is established: the callback may close it at once. -/
theorem opened_acts {d : Cx} (h : CActs K P c d) (hst : d.pcb.state = .established)
    (hrel : c.Reliable → d.Reliable)
    (hK : env.onEstablished → ∀ c' : Cx, c'.pcb.state = .established →
      (c.Reliable → c'.Reliable) → K.shut c') : CActs K P c (notifyEstablished env d) :=
  h.trans (notifyEstablished_acts fun he => hK he d hst hrel)

theorem onSynSent_acts {seg : Segment} (hs : c.pcb.state = .synSent)
    (hsyn : seg.flags.syn → K.syn seg)
    (hdone : seg.flags.ack → seg.ack = c.pcb.snd.nxt → K.done c.pcb.snd)
    (hK : env.onEstablished → ∀ c' : Cx, c'.pcb.state = .established →
      (c.Reliable → c'.Reliable) → K.shut c') : CActs K P c (onSynSent env c seg) := by
  have hh : c.pcb.state.halfOpen := by rw [hs]; rfl
  unfold onSynSent
  split
  · rename_i h
    rw [h.2.2]
    dsimp only
    split
    · exact .single ⟨.abort _ hh, nofun⟩
    · rename_i d hd
      unfold tcpHandshakeDone at hd
      split at hd
      · cases hd
      · cases hd
        have h1 : CActs K P c (c.openActive seg (c.pcb.rcv.buf.getD env.heap)) :=
          .single ⟨.openActive seg _ hs (hsyn h.1) (hdone h.2.1 h.2.2), fun _ _ => rfl⟩
        have ha := ack_acts (K := K) (c.openActive seg (c.pcb.rcv.buf.getD env.heap))
        exact opened_acts (h1.trans ha.acts) ha.kept.state ha.kept.reliable hK
  · split
    · rename_i h
      have h1 : CActs K P c _ := .single ⟨.cross seg hs (hsyn h.1), fun _ _ => rfl⟩
      have h2 := h1.trans (syn_acts (c := c.setPcb (c.pcb.crossing seg)) rfl true)
      have he : (c.setPcb (c.pcb.crossing seg)).setSnd
          { (c.setPcb (c.pcb.crossing seg)).pcb.snd with
            nxt := (c.setPcb (c.pcb.crossing seg)).pcb.snd.una } =
          ((c.setRcv (c.pcb.rcv.synced seg.seq)).setSnd
            (Snd.ccInit (Snd.consumeMss { c.pcb.snd with nxt := c.pcb.snd.una } seg))).setState
            .synRcvd := by
        unfold Pcb.crossing Snd.consumeMss
        cases seg.mss <;> rfl
      have he' : CActs K P c (tcpOutput (((c.setRcv (c.pcb.rcv.synced seg.seq)).setSnd
          (Snd.ccInit (Snd.consumeMss { c.pcb.snd with nxt := c.pcb.snd.una } seg))).setState
          .synRcvd) { syn := true, ack := true } 0).1 := by
        rw [← he]
        exact h2
      rw [tcpOutput_setState] at he'
      exact he'
    · exact .refl

theorem onSynRcvd_acts {seg : Segment} (hP : ¬P) (hs : c.pcb.state = .synRcvd)
    (hdone : seg.flags.ack → seg.ack = c.pcb.snd.nxt → K.done c.pcb.snd)
    (hK : env.onEstablished → ∀ c' : Cx, c'.pcb.state = .established →
      (c.Reliable → c'.Reliable) → K.shut c') : CActs K P c (onSynRcvd env c seg) := by
  have hh : c.pcb.state.halfOpen := by rw [hs]; rfl
  unfold onSynRcvd
  split
  · rename_i h
    rw [h.2]
    dsimp only
    split
    · exact .single ⟨.abort _ hh, nofun⟩
    · rename_i d hd
      unfold tcpHandshakeDone at hd
      split at hd
      · cases hd
      · cases hd
        have h1 : CActs K P c (c.openPassive (c.pcb.rcv.buf.getD env.heap)) :=
          .single ⟨.openPassive _ hs (hdone h.1 h.2), fun _ _ => rfl⟩
        split
        · refine opened_acts ?_ rfl id hK
          exact h1.tail ⟨.send (.clocks ⟨_, _, _, env.parentCb⟩), fun hp => absurd hp hP⟩
        · exact opened_acts h1 rfl id hK
  · split
    · exact syn_acts hh true
    · exact .refl

theorem connect_acts (hP : ¬P) (hs : c.pcb.state = .closed) (hact : c.pcb.active) (isn : Seq) :
    CActs K P c (tcpConnect c isn) := by
  unfold tcpConnect
  dsimp only
  rcases tcpOutput_cases ((c.setPcb (c.pcb.opening isn)).put (.opened isn)) { syn := true } 0 with
    ⟨hx, h⟩ | ⟨hx, h⟩ | ⟨hc, _⟩ | ⟨hx, bytes, hc, h⟩
  · rw [h]
    exact (offer_acts _).acts.head ⟨.stillborn isn (c.pcb.opening isn) hs hx, nofun⟩
  · rw [h]
    exact (offer_acts _).acts.head ⟨.stillborn isn { c.pcb.opening isn with
      rcv := (c.pcb.opening isn).rcv.advertise tcpMss } hs hx, nofun⟩
  · cases hc
  · cases hc
    rw [h]
    have h1 : CActs K P c _ := .single ⟨.connect isn hs hact hx, fun _ _ => rfl⟩
    refine (h1.trans (offer_acts _).acts).tail ⟨.send (.clocks ⟨true, _, _, true⟩), ?_⟩
    exact fun hp => absurd hp hP

theorem accept_acts {seg : Segment} (hs : c.pcb.state = .closed) (hact : c.pcb.active)
    (hK : K.accept c) (hsyn : K.syn seg) (listener : Nat) (isn : Seq) :
    CActs K P c (tcpAccept c listener seg isn) := by
  refine ReflTransGen.trans ?_ (clocks_acts _ ⟨true, _, _, _⟩ rfl).acts
  refine tcpOutput_bare (P := fun r => CActs K P c r.1) (fun hx => ?_) fun _ => ?_
  · have h1 : CActs K P c _ :=
      .single ⟨.acceptLost listener seg isn hs hact hK hsyn hx, fun _ _ => rfl⟩
    exact ⟨h1.trans (offer_acts _).acts, h1.trans (refused_acts _).acts⟩
  · have h1 : CActs K P c _ := .single ⟨.accept listener seg isn hs hact hK hsyn, fun _ _ => rfl⟩
    exact h1.trans (offer_acts _).acts

/-! ## Entry points -/

/-- The kit allows what a segment asks for. -/
structure Kit.Hears (K : Kit) (env : Env) (c : Cx) (seg : Segment) : Prop where
  acks : ¬c.pcb.state.halfOpen → K.Acks (c.pcb.snd.seeWindow seg.window) seg
  text : c.pcb.state.texts → K.text c.recvCount seg
  shut : c.pcb.state.halfOpen → env.onEstablished → ∀ c' : Cx, c'.pcb.state = .established →
    (c.Reliable → c'.Reliable) → K.shut c'
  syn : c.pcb.state = .synSent → seg.flags.syn → K.syn seg
  done : c.pcb.state.halfOpen → seg.flags.ack → seg.ack = c.pcb.snd.nxt →
    K.done (c.pcb.snd.seeWindow seg.window)

/-- The kit allows what an operation asks for. -/
def Kit.Allows (K : Kit) (env : Env) (c : Cx) : Op → Prop
  | .rx seg => seg.flags.rst = false → K.Hears env c seg
  | .close => c.pcb.state.writes ∨ c.pcb.state = .synRcvd → K.shut c
  | .accept _ seg _ => K.accept c ∧ K.syn seg
  | _ => True

theorem reset_acts (c : Cx) (seg : Segment) : CActs K P c (tcpReset c seg) := by
  unfold tcpReset
  dsimp only
  split
  · split
    · exact .single ⟨.release .connRefused (by simp), nofun⟩
    · exact .refl
  · split
    · exact .single ⟨.release .connReset (by simp), nofun⟩
    · exact .refl

section Handlers
variable {seg : Segment} (env : Env)

section
-- in every state but those of the handshake the ACK comes first
variable (h1 : PActs K c (tcpProcessAck env c seg).1)
include h1

/-- The ACK and then the text of a segment. -/
theorem ackText_acts (hs : c.pcb.state.texts) (ht : K.text c.recvCount seg) :
    CActs K P c (tcpRecvText env (tcpProcessAck env c seg).1 seg) := by
  refine h1.acts.trans (recvText_acts (by rw [h1.kept.state]; exact hs) ?_)
  rw [h1.kept.recvCount]
  exact ht

theorem onEstablished_acts (hs : c.pcb.state = .established) (ht : K.text c.recvCount seg) :
    CActs K P c (onEstablished env c seg) := by
  unfold onEstablished
  dsimp only
  split
  · exact h1.acts.trans (ack_acts _).acts
  · exact ackText_acts env h1 (by rw [hs]; rfl) ht

theorem onFinWait1_acts (hs : c.pcb.state = .finWait1) (ht : K.text c.recvCount seg) :
    CActs K P c (onFinWait1 env c seg) := by
  unfold onFinWait1
  dsimp only
  split
  · rename_i hfin
    have h2 : CActs K P c _ :=
      h1.acts.tail ⟨.finWait2 (h1.kept.state.trans hs) hfin, fun _ _ => rfl⟩
    refine h2.trans (recvText_acts rfl ?_)
    have hcount := h1.kept.recvCount
    rw [show (tcpEnterFinWait2 (tcpProcessAck env c seg).1).recvCount =
      (tcpProcessAck env c seg).1.recvCount from rfl, hcount]
    exact ht
  · exact ackText_acts env h1 (by rw [hs]; rfl) ht

theorem onClosing_acts (hs : c.pcb.state = .closing) : CActs K P c (onClosing env c seg) := by
  unfold onClosing
  dsimp only
  split
  · rename_i hfin
    exact h1.acts.tail ⟨.bury (.inr ⟨h1.kept.state.trans hs, hfin.2⟩), fun _ _ => rfl⟩
  · split
    · exact h1.acts.trans (ack_acts _).acts
    · exact h1.acts

theorem onLastAck_acts : CActs K P c (onLastAck env c seg) := by
  unfold onLastAck
  dsimp only
  split
  · rename_i hfin
    exact h1.acts.tail ⟨.release .ok fun _ _ => .inl hfin.2, nofun⟩
  · exact h1.acts

theorem onCloseWait_acts : CActs K P c (onCloseWait env c seg) := by
  unfold onCloseWait
  split
  · exact h1.acts.trans (ack_acts _).acts
  · exact h1.acts

end

theorem onTimeWait_acts (hs : c.pcb.state = .timeWait) : CActs K P c (onTimeWait c seg) := by
  unfold onTimeWait
  split
  · have h1 := ack_acts (K := K) c
    exact h1.acts.tail ⟨.bury (.inl (h1.kept.state.trans hs)), fun _ _ => rfl⟩
  · exact .refl

theorem onState_acts (hP : P → c.pcb.state ≠ .synRcvd)
    (hK : ¬c.pcb.state.halfOpen → K.Acks c.pcb.snd seg)
    (ht : c.pcb.state.texts → K.text c.recvCount seg)
    (hsh : c.pcb.state.halfOpen → env.onEstablished → ∀ c' : Cx, c'.pcb.state = .established →
      (c.Reliable → c'.Reliable) → K.shut c')
    (hsyn : c.pcb.state = .synSent → seg.flags.syn → K.syn seg)
    (hdone : c.pcb.state.halfOpen → seg.flags.ack → seg.ack = c.pcb.snd.nxt → K.done c.pcb.snd) :
    CActs K P c (onState env c seg) := by
  have hack : ¬c.pcb.state.halfOpen → PActs K c (tcpProcessAck env c seg).1 :=
    fun hh => processAck_acts hh (hK hh)
  unfold onState
  cases hs : c.pcb.state with
  | synSent => exact onSynSent_acts hs (hsyn hs) (hdone (by rw [hs]; rfl)) (hsh (by rw [hs]; rfl))
  | synRcvd => exact onSynRcvd_acts (hP · hs) hs (hdone (by rw [hs]; rfl)) (hsh (by rw [hs]; rfl))
  | closed => exact .refl
  | listening => exact .refl
  | timeWait => exact onTimeWait_acts hs
  | established => exact onEstablished_acts env (hack (by rw [hs]; decide)) hs (ht (by rw [hs]; rfl))
  | finWait1 => exact onFinWait1_acts env (hack (by rw [hs]; decide)) hs (ht (by rw [hs]; rfl))
  | finWait2 =>
    exact ackText_acts env (hack (by rw [hs]; decide)) (by rw [hs]; rfl) (ht (by rw [hs]; rfl))
  | closing => exact onClosing_acts env (hack (by rw [hs]; decide)) hs
  | lastAck => exact onLastAck_acts env (hack (by rw [hs]; decide))
  | closeWait => exact onCloseWait_acts env (hack (by rw [hs]; decide))

theorem dispatch_acts (hP : P → c.pcb.state ≠ .synRcvd)
    (hK : seg.flags.rst = false → K.Hears env c seg) :
    CActs K P c (tcpDispatch env c seg) := by
  unfold tcpDispatch
  split
  · exact reset_acts c seg
  · rename_i hrst
    replace hK := hK (Bool.eq_false_iff.mpr hrst)
    have h1 : CActs K P c _ := .single ⟨.heard seg.window seg.narrow, fun _ _ => rfl⟩
    have hcount : ((c.setSnd (c.pcb.snd.seeWindow seg.window)).put (.heard seg.window)).recvCount =
        c.recvCount := by simp [Cx.recvCount, gaveAll]
    have h2 : CActs K P c _ := h1.trans (onState_acts env hP hK.acks
      (fun h => hcount.symm ▸ hK.text h) hK.shut hK.syn hK.done)
    dsimp only
    split
    · exact h2.trans (xmit_acts _).acts
    · exact h2

end Handlers

/-- **Every entry point of netd is a sequence of acts** of any kit that allows what it asks
for. -/
theorem Op.acts {op : Op} (hact : c.pcb.active) (hen : op.enabled c.pcb)
    (hK : K.Allows env c op) :
    Acts K c (op.exec env c) := by
  refine CActs.acts (P := False) ?_
  cases op with
  | connect isn => exact connect_acts id hen hact isn
  | accept listener seg isn => exact accept_acts hen hact hK.1 hK.2 listener isn
  | rx seg => exact dispatch_acts env nofun hK
  | send data => exact (send_acts env c data).acts
  | recv sz => exact recv_acts c sz
  | close => exact close_acts hK
  | drop => exact .single ⟨.release .ok fun h => absurd (h.symm.trans hen.1) nofun, nofun⟩
  | rto => exact rtoCb_acts c
  | persist => exact (persistCb_acts c).acts
  | timeWait => exact .single ⟨.release .ok fun _ _ => .inr hen, nofun⟩
  | finWait2 => exact .single ⟨.release .timeout (by simp), nofun⟩

/-- A connection whose next entry point is called with the frames `tx` to come. -/
def Conn.cx (s : Conn) (tx : Stream' Tx) : Cx := ⟨s.pcb, s.log, tx⟩

/-- A step of a connection is a sequence of acts. -/
theorem Conn.step_acts {s' : Conn} {l : Op × Env} (hs : s.step l = some s')
    (hK : K.Allows l.2 (s.cx l.2.tx) l.1) : ∃ tx, Acts K (s.cx l.2.tx) (s'.cx tx) := by
  unfold Conn.step at hs
  split at hs
  · rename_i hen
    cases hs
    exact ⟨_, Op.acts hen.1 hen.2.2 hK⟩
  · cases hs

/-- A block that was given back is closed and has no ring to send from. -/
def Cx.Tidy (c : Cx) : Prop := c.pcb.active ∨ c.pcb.state = .closed ∧ c.pcb.snd.buf = none

theorem SAct.no_ring (h : SAct K c c') (hw : ¬c.pcb.state.writes) (hb : c.pcb.snd.buf = none) :
    c'.pcb.snd.buf = none := by
  cases h with
  | data bytes fin => cases fin <;> exact hb
  | alloc _ h => exact absurd h hw
  | took _ h => exact absurd h hw
  | _ => exact hb

theorem Cx.Tidy.act (h : c.Tidy) (ha : Act K c c') : c'.Tidy := by
  rcases h with h | ⟨hcl, hb⟩
  · cases ha with
    | release | stillborn | abort => exact .inr ⟨rfl, rfl⟩
    | send ha => exact .inl (ha.kept.active.trans h)
    | _ => exact .inl h
  · cases ha with
    | release | stillborn | abort => exact .inr ⟨rfl, rfl⟩
    | send ha => exact .inr ⟨ha.kept.state.trans hcl, ha.no_ring (by rw [hcl]; decide) hb⟩
    | connect _ _ h => exact .inl h
    | accept _ _ _ _ h | acceptLost _ _ _ _ h => exact .inl h
    | bury hst => rw [hcl] at hst; rcases hst with h | ⟨h, -⟩ <;> cases h
    | shut _ hst => rw [hcl] at hst; rcases hst with h | h <;> cases h
    | takeFin hst | finWait2 hst | cross _ hst | openActive _ _ hst | openPassive _ hst =>
      rw [hcl] at hst
      cases hst
    | _ => exact .inr ⟨hcl, hb⟩

/-- The connections whose steps all meet `ok`. -/
def tcpRuns (ok : Conn → Op × Env → Prop) : LTS Conn (Op × Env) :=
  tcpSystem.restrict (fun _ => True) ok

/-- A connection along a list of labels that are checked one by one. -/
def Conn.runs (ok : Conn → Op × Env → Prop) [∀ s l, Decidable (ok s l)] (ls : List (Op × Env)) :
    Option Conn :=
  ls.foldlM (fun s l => if ok s l then s.step l else none) ⟨Pcb.fresh, []⟩

theorem Conn.runs_reachable {ok : Conn → Op × Env → Prop} [∀ s l, Decidable (ok s l)]
    {ls : List (Op × Env)} (h : Conn.runs ok ls = some s) :
    (tcpRuns ok).Reachable s :=
  ⟨_, ls, ⟨rfl, trivial⟩, LTS.restrict_run_of_foldlM h⟩

/-- **Invariants of connections.** `J` holds in every state of every run whose labels `K`
allows if every act keeps it, from the block that `TcpPcbAlloc` hands out. `J` does not look
at the frames to come. -/
theorem tcp_invariant {ok : Conn → Op × Env → Prop} (K : Conn → Op × Env → Kit) {J : Cx → Prop}
    (hblind : ∀ c tx, J c → J (c.setTx tx)) (hinit : ∀ tx, J (Conn.cx ⟨Pcb.fresh, []⟩ tx))
    (hact : ∀ {s l c c'}, J c → Act (K s l) c c' → J c')
    (hK : ∀ {s l}, ok s l → (K s l).Allows l.2 (s.cx l.2.tx) l.1)
    (hs : (tcpRuns ok).Reachable s) (tx : Stream' Tx) : J (s.cx tx) := by
  suffices h : (tcpRuns ok).Inductive fun s => ∀ tx, J (s.cx tx) from h.reachable hs tx
  refine ⟨fun {s} hi => ?_, fun {s l s'} hJ hst tx => ?_⟩
  · obtain ⟨rfl, -⟩ := hi
    exact hinit
  · obtain ⟨tx', h⟩ := Conn.step_acts hst.1 (hK hst.2)
    exact hblind _ tx (h.keeps hact (hJ _))

end Zuzu.L5
