import Zuzu.L5Net.TcpSend

/-!
# How a connection is established

A handshake is completed by an ACK of `snd_nxt`, which is one past the initial sequence number once
the SYN is out. If the SYN could not be sent, or could not be sent again, it is the initial
sequence number itself, and an ACK of that completes the handshake as well.

**Results.** `handshake_completed`: in every run of sober steps a connection is established by an
ACK of its SYN, which has been sent. `isn_ack_completes`: without the condition it need not be.
-/
namespace Zuzu.L5
open Zuzu.Core Serial
variable {K : Kit} {c c' : Cx} {isn : Seq} {u x m : Nat} {s : Conn}

/-- The SYN has been sent from `isn`. -/
def SynOut (isn : Seq) (log : List Out) : Prop := ∃ sg, .sent sg ∈ log ∧ sg.flags.syn ∧ sg.seq = isn

theorem SynOut.append {log : List Out} (h : SynOut isn log) (l : List Out) :
    SynOut isn (log ++ l) := by
  obtain ⟨sg, hsg, hrest⟩ := h
  exact ⟨sg, List.mem_append_left _ hsg, hrest⟩

/-- ESTABLISHED is entered by an ACK of the SYN, which has been sent. -/
def Completed (before : List Out) : Out → Prop
  | .established ack una nxt max => ∃ isn, .opened isn ∈ before ∧ SynOut isn before ∧
      ack = seqAdd isn 1 ∧ una = ack ∧ nxt = ack ∧ max = ack
  | _ => True

/-- A connection on its way, and its log. -/
structure Opening (c : Cx) : Prop where
  sound : Sound c
  log : Each Completed c.log
  syn : c.pcb.state.halfOpen → c.pcb.snd.nxt ≠ c.pcb.snd.una → SynOut c.pcb.snd.una c.log

/-! ## The log -/

theorem Opening.half (h : Opening c) (hh : c.pcb.state.halfOpen) :
    ∃ isn x m, c.pcb.snd.At isn 0 x m ∧ Mute isn 0 m c ∧ c.pcb.snd.inRecovery = false := by
  have hact : c.pcb.active := h.sound.tidy.resolve_right fun hc => by
    rw [hc.1] at hh
    cases hh
  obtain ⟨isn, u, x, m, hat, hm, -, hr⟩ := (h.sound.inv hact).mute (.inr hh)
  obtain ⟨rfl, -⟩ := hm.half hh
  exact ⟨isn, x, m, hat, hm, hr⟩

/-- The entry that is made when `snd_nxt` is acknowledged. -/
theorem Opening.done (h : Opening c) (hh : c.pcb.state.halfOpen)
    (hne : c.pcb.snd.nxt ≠ c.pcb.snd.una) :
    Completed c.log (.established c.pcb.snd.nxt c.pcb.snd.nxt c.pcb.snd.nxt c.pcb.snd.max) := by
  obtain ⟨isn, x, m, hat, hm, hr⟩ := h.half hh
  have hdone := hat.synAcked hm.empty hne hr
  have hsyn := h.syn hh hne
  rw [hat.una, fwd_zero] at hsyn
  exact ⟨isn, (hm.half hh).2, hsyn, hdone.nxt, rfl, rfl, hdone.max.trans hdone.nxt.symm⟩

theorem Opening.completed (hK : K.Tame) (h : Opening c) (ha : Act K c c') :
    Each Completed c'.log := by
  have hplain : ∀ before (o : Out), o.Plain → Completed before o := by
    intro before o ho
    cases o with
    | established => exact ho.elim
    | _ => trivial
  exact ha.each h.log hplain
    (fun hs => hs.each h.log hplain (fun _ _ _ _ => trivial) fun _ _ _ => trivial)
    fun hh hdone => h.done hh (hK.done hdone)

/-! ## The SYN -/

/-- A block without text does not send while it is half open. -/
theorem Mute.sact_half (hat : c.pcb.snd.At isn u x m) (h : Mute isn u m c)
    (hh : c.pcb.state.halfOpen) (ha : SAct K c c') :
    c'.pcb.snd.nxt = c.pcb.snd.nxt ∧ c'.pcb.snd.una = c.pcb.snd.una := by
  have hplan : ∀ len fin, c.pcb.snd.plan ≠ some (len, fin) := by
    intro len fin hp
    have h1 := hat.plan hp
    have h2 := h.empty
    have h3 := hat.una_nxt
    omega
  cases ha with
  | bare f hs hf => simp [Cx.emit, Snd.advance, Flags.span, hs, hf, seqAdd]
  | data _ _ hp => exact absurd hp (hplan _ _)
  | finLost _ hp => exact absurd hp (hplan _ _)
  | fin hp => exact absurd hp (by simp [(h.calm (.inl hh)).1])
  | rewind hn => exact absurd hh hn
  | acked _ hn => exact absurd hh hn
  | _ => exact ⟨rfl, rfl⟩

theorem Opening.act (hK : K.Tame) (h : Opening c) (ha : Act K c c') : Opening c' := by
  refine ⟨h.sound.act hK ha, h.completed hK ha, fun hh hne => ?_⟩
  cases ha with
  | send ha =>
    rw [ha.kept.state] at hh
    obtain ⟨isn, x, m, hat, hm, -⟩ := h.half hh
    obtain ⟨hnxt, huna⟩ := hm.sact_half hat hh ha
    obtain ⟨l, hl⟩ := ha.log_eq
    rw [hnxt, huna] at hne
    rw [huna, hl]
    exact (h.syn hh hne).append l
  | heard | gave | fault => exact (h.syn hh hne).append _
  | seeFin | deliver | store => exact h.syn hh hne
  | takeFin ht => exact absurd hh (TcpState.afterFin_open ht).2.1
  | shut _ hst => exact absurd hh (TcpState.afterClose_silent hst).2.1
  | connect | syn => exact ⟨_, List.mem_append_right _ (List.mem_singleton_self _), rfl, rfl⟩
  | accept listener seg =>
    obtain ⟨hnxt, huna, -⟩ := Snd.consumeMss_numbers _ seg
    exact ⟨_, List.mem_append_right _ (List.mem_singleton_self _), rfl, hnxt.trans huna.symm⟩
  | acceptLost listener seg =>
    obtain ⟨hnxt, huna, -⟩ := Snd.consumeMss_numbers _ seg
    exact absurd (hnxt.trans huna.symm) hne
  | cross seg hst =>
    obtain ⟨hnxt, huna, -⟩ := Snd.consumeMss_numbers c.pcb.snd seg
    have hold := h.syn (by rw [hst]; rfl) fun he => hne ((hnxt.trans he).trans huna.symm)
    rw [← huna] at hold
    exact hold
  | synLost => exact absurd rfl hne
  | _ => cases hh

/-- **The handshake.** In every run of sober steps, with frames that are sent or not as it may be:
whenever ESTABLISHED is entered, the SYN has been sent and the segment acknowledges it, and all
counters are one past it. -/
theorem handshake_completed (hs : (tcpRuns Sober).Reachable s) : Each Completed s.log :=
  (tcp_invariant (J := Opening) (fun _ _ => soberKit)
    (fun _ tx h => ⟨h.sound.setTx tx, h.log, h.syn⟩)
    (fun tx => ⟨.fresh tx, .nil, fun hh => absurd hh Bool.false_ne_true⟩)
    (fun h ha => h.act soberKit_tame ha) soberKit_allows hs (Stream'.const .sent)).log

/-- A connection from a peer, with the SYN-ACK sent or not, and an ACK. -/
def answered (tx : Tx) (ack : Seq) : List (Op × Env) :=
  [(.accept 0 ⟨0, 0, { syn := true }, [], 65535, none, nil_fits, max_fits⟩ 7,
      { Env.idle with tx := Stream'.const tx }),
    (.rx ⟨1, ack, { ack := true }, [], 65535, none, nil_fits, max_fits⟩, .idle)]

theorem handshake_completed_answered : ∃ s : Conn, Each Completed s.log ∧
    .established 8 8 8 8 ∈ s.log := by
  obtain ⟨s, hs⟩ := Option.isSome_iff_exists.mp
    (by decide +kernel : (Conn.runs Sober (answered .sent 8)).isSome)
  refine ⟨s, handshake_completed (Conn.runs_reachable hs), ?_⟩
  have : (Conn.runs Sober (answered .sent 8)).all fun s => .established 8 8 8 8 ∈ s.log := by
    decide +kernel
  rw [hs] at this
  exact of_decide_eq_true this

/-- The SYN-ACK could not be sent, and an ACK of the initial sequence number makes a connection. -/
theorem isn_ack_completes : ∃ s, tcpSystem.Reachable s ∧ .opened 7 ∈ s.log ∧
    .established 7 7 7 7 ∈ s.log ∧ s.log.all (fun | .sent sg => !sg.flags.syn | _ => true) := by
  refine ⟨((answered .full 7).foldlM Conn.step ⟨Pcb.fresh, []⟩).get (by decide +kernel),
    ⟨_, answered .full 7, rfl, LTS.run_of_foldlM (Option.some_get _).symm⟩, ?_, ?_, ?_⟩
  all_goals decide +kernel

end Zuzu.L5
