import Zuzu.Core.History
import Zuzu.L5Net.TcpFlight
import Zuzu.L5Net.TcpWalk

/-!
# Sent bytes are the application's bytes

Position 0 is the SYN of a connection and position `k + 1` is byte `k` of what
`TcpSend` accepted. The send ring holds the positions that are not acknowledged, and the positions
of `Snd.At` stay in order through timeouts, fast retransmits and the number that a FIN takes.

Two things break this. An ACK half a turn ahead is taken when nothing is in flight, and a
handshake can be completed by an ACK of the initial sequence number itself when the
retransmission of the SYN has failed. `Sober` rules out both.

**Results.** `send_integrity`: in every run of sober steps the counters are in order, and every
data segment carries at number ISN + 1 + k the bytes from byte k on.
`half_turn_ack`: without the condition the order is lost.
-/
namespace Zuzu.L5
open Zuzu.Core Serial

/-- The bytes that `TcpSend` accepted. -/
def tookAll (log : List Out) : List Byte :=
  log.flatMap fun
    | .took data => data
    | _ => []

/-- A segment with text carries the bytes that its number stands for, and they are among the last
that fit in the ring. -/
def Carried (before : List Out) : Out → Prop
  | .sent sg => sg.data ≠ [] → ∃ isn k, .opened isn ∈ before ∧ sg.seq = fwd isn (1 + k) ∧
      sg.data = ((tookAll before).drop k).take sg.data.length ∧
      (tookAll before).length ≤ k + tcpSndBuf
  | _ => True

/-- Kits under which the positions stay in order. -/
structure Kit.Tame (K : Kit) : Prop where
  ack : ∀ {s a}, K.ack s a → s.max = s.una → a ≠ fwd s.una (2 ^ 31)
  done : ∀ {s}, K.done s → s.nxt ≠ s.una

variable {K : Kit} {c c' d : Cx} {isn : Seq} {u x m : Nat}

/-- A connection that has not sent text and will not do so in its present state. -/
structure Mute (isn : Seq) (u m : Nat) (c : Cx) : Prop where
  none : tookAll c.log = []
  empty : c.pcb.snd.buffered = 0
  silent : ¬c.pcb.state.writes
  half : c.pcb.state.halfOpen → u = 0 ∧ .opened isn ∈ c.log
  closed : c.pcb.state = .closed → m = u
  calm : c.pcb.state.halfOpen ∨ c.pcb.state = .closed →
    c.pcb.snd.finPending = false ∧ c.pcb.snd.inRecovery = false

/-- A connection that was established. -/
structure Fed (isn : Seq) (u m : Nat) (c : Cx) : Prop where
  opened : .opened isn ∈ c.log
  pos : 1 ≤ u
  count : c.pcb.snd.buffered = (tookAll c.log).length + 1 - u
  last : m ≤ (tookAll c.log).length + 2
  fin : m = (tookAll c.log).length + 2 → c.pcb.snd.finSent
  shut : c.pcb.snd.finPending → ¬c.pcb.state.writes
  idle : c.pcb.state.writes → c.pcb.snd.buf = none → c.pcb.snd.buffered = 0
  ring : ∀ f, c.pcb.snd.buf = some f →
    Ring.Holds tcpSndBuf isn.toNat (fun i => (tookAll c.log).getD (i - 1) 0)
      (fun i => u ≤ i ∧ i < (tookAll c.log).length + 1) f
  open_ : c.pcb.state ≠ .closed ∧ ¬c.pcb.state.halfOpen

/-- The sending side of a block in use. -/
def SendInv (c : Cx) : Prop :=
  (c.pcb.snd.finSent → c.pcb.snd.finPending) ∧
    ∃ isn u x m, c.pcb.snd.At isn u x m ∧ (Mute isn u m c ∨ Fed isn u m c)

/-! ## Text -/

/-- Text that is copied out of the ring. -/
theorem Fed.copyOut (h : Fed isn u m c) (hsz : c.pcb.snd.size = tcpSndBuf) {s : Snd} {p : Nat}
    {bytes : List Byte} (hbuf : s.buf = c.pcb.snd.buf) (hsize : s.size = c.pcb.snd.size)
    (hnxt : s.nxt = fwd isn p) (hp : u ≤ p)
    (hlen : p + bytes.length ≤ (tookAll c.log).length + 1)
    (hroom : c.pcb.snd.buffered ≤ tcpSndBuf)
    (hcopy : s.copyOut bytes.length = some bytes) :
    bytes ≠ [] → ∃ k, s.nxt = fwd isn (1 + k) ∧
      bytes = ((tookAll c.log).drop k).take bytes.length ∧
      (tookAll c.log).length ≤ k + tcpSndBuf := by
  intro hne
  have hpos := List.length_pos_of_ne_nil hne
  have hu := h.pos
  have hcount := h.count
  refine ⟨p - 1, by rw [hnxt]; exact congrArg (fwd isn) (by omega), ?_, by omega⟩
  unfold Snd.copyOut at hcopy
  rw [if_neg (by omega)] at hcopy
  obtain ⟨f, hf, hget⟩ := Option.map_eq_some_iff.mp hcopy
  have hring := h.ring f (hbuf ▸ hf)
  rw [hsize, hsz, hnxt, cell_fwd isn p (n := tcpSndBuf) (k := 15) rfl (by decide), hring.get (by decide) (by omega)
    fun i h1 h2 => ⟨by omega, by omega⟩] at hget
  rw [← hget]
  refine List.ext_getElem (by simp; omega) fun i h1 h2 => ?_
  simp only [List.length_map, List.length_range] at h1
  simp only [List.getElem_map, List.getElem_range, List.getElem_take, List.getElem_drop]
  rw [List.getD_eq_getElem _ _ (by omega)]
  congr 1
  omega

/-! ## Acts of the sending side -/

/-- What an act of the sending side adds to the log: no bytes of the application but those it
takes. -/
theorem SAct.log_eq (h : SAct K c c') : ∃ l, c'.log = c.log ++ l := by
  cases h with
  | data bytes fin => cases fin <;> exact ⟨_, rfl⟩
  | bare | fin | head | probe | took | fault => exact ⟨_, rfl⟩
  | _ => exact ⟨[], (List.append_nil _).symm⟩

theorem SAct.opened (h : SAct K c c') (ho : .opened isn ∈ c.log) : .opened isn ∈ c'.log := by
  obtain ⟨l, hl⟩ := h.log_eq
  rw [hl]
  exact List.mem_append_left _ ho

theorem SAct.finSent (h : SAct K c c') (hat : c.pcb.snd.At isn u x m)
    (hf : c.pcb.snd.finSent → c.pcb.snd.finPending) :
    c'.pcb.snd.finSent → c'.pcb.snd.finPending := by
  rw [h.kept.finPending]
  cases h with
  | data bytes fin hp =>
    cases fin with
    | false => exact hf
    | true => exact fun _ => ((hat.plan hp).2.2.2.2.mp rfl).1
  | finLost len hp => exact fun _ => ((hat.plan hp).2.2.2.2.mp rfl).1
  | fin hp => exact fun _ => hp
  | _ => exact hf

/-- What an act that takes nothing from the application does to the positions: new numbers are
those of buffered text and of a FIN behind it. -/
structure Sends (u m : Nat) (c : Cx) (v k : Nat) (c' : Cx) : Prop where
  took : tookAll c'.log = tookAll c.log
  buf : c'.pcb.snd.buf = c.pcb.snd.buf
  una : u = v ∨ ¬c.pcb.state.halfOpen ∧ u < v ∧ v ≤ m
  count : c'.pcb.snd.buffered = c.pcb.snd.buffered - (v - u)
  ge : m ≤ k
  max : m < k → k ≤ u + c.pcb.snd.buffered + 1 ∧ (k = u + c.pcb.snd.buffered + 1 →
      c'.pcb.snd.finSent) ∧
    (u < m ∨ 0 < c.pcb.snd.buffered ∨ c.pcb.snd.finPending ∧ (c.pcb.snd.finSent → m ≠ u))
  sent : c.pcb.snd.finSent → c'.pcb.snd.finSent
  calm : c'.pcb.snd.inRecovery = c.pcb.snd.inRecovery ∨ ¬c.pcb.state.halfOpen ∧ u < m

/-- Where an act of the sending side leaves the positions. -/
theorem SAct.sends (hK : K.Tame) (hat : c.pcb.snd.At isn u x m) (ha : SAct K c c') :
    (∃ b, c.pcb.state.writes ∧ c.pcb.snd.buf = none ∧
      c' = c.setSnd { c.pcb.snd with buf := some b }) ∨
    (∃ data : List Byte, c.pcb.state.writes ∧ c.pcb.snd.buf ≠ none ∧
      data.length ≤ c.pcb.snd.size - c.pcb.snd.buffered ∧
      c' = (c.setSnd (c.pcb.snd.enqueue data)).put (.took data)) ∨
    ∃ v y k, c'.pcb.snd.At isn v y k ∧ Sends u m c v k c' := by
  have hux := hat.una_nxt
  have hsub : c.pcb.snd.buffered = c.pcb.snd.buffered - (u - u) := by omega
  have nomore {P : Prop} (h : m < m) : P := absurd h (lt_irrefl _)
  have same {y : Nat} (h1 : c'.pcb.snd.At isn u y m) (h2 : tookAll c'.log = tookAll c.log)
      (h3 : c'.pcb.snd.buf = c.pcb.snd.buf)
      (h4 : c'.pcb.snd.buffered = c.pcb.snd.buffered)
      (h5 : c.pcb.snd.finSent → c'.pcb.snd.finSent)
      (h6 : c'.pcb.snd.inRecovery = c.pcb.snd.inRecovery) :
      ∃ v y k, c'.pcb.snd.At isn v y k ∧ Sends u m c v k c' :=
    ⟨u, y, m, h1, h2, h3, .inl rfl, h4.trans hsub, le_refl _, nomore, h5, .inl h6⟩
  cases ha with
  | alloc b hw hb => exact .inl ⟨b, hw, hb, rfl⟩
  | took data hw hne hlen => exact .inr (.inl ⟨data, hw, hne, hlen, rfl⟩)
  | tx | advertise | clocks => exact .inr (.inr (same hat rfl rfl rfl id rfl))
  | pace =>
    exact .inr (.inr (same (hat.congr rfl rfl rfl rfl rfl hat.wnd (.inr rfl) rfl) rfl rfl rfl id rfl))
  | fault => exact .inr (.inr (same hat (by simp [tookAll]) rfl rfl id rfl))
  | bare f h1 h2 =>
    have hspan : f.span 0 = 0 := by simp [Flags.span, h1, h2]
    refine .inr (.inr (same (y := x) ?_ (by simp [Cx.emit, tookAll]) rfl rfl id rfl))
    change (c.pcb.snd.advance (f.span 0)).At isn u x m
    rw [hspan]
    exact hat.advance_zero
  | probe =>
    exact .inr (.inr (same hat.probe (by simp [Cx.emitAt, Cx.emit, tookAll]) rfl rfl id rfl))
  | rewind => exact .inr (.inr (same hat.rewind rfl rfl rfl id rfl))
  | finLost len hp =>
    exact .inr (.inr (same (hat.congr rfl rfl rfl rfl rfl hat.wnd (.inr rfl) rfl) rfl rfl rfl
      (fun _ => rfl) rfl))
  | recover b hh hne =>
    exact .inr (.inr ⟨u, x, m, hat.setRecover b hne, rfl, rfl, .inl rfl, hsub, le_refl _,
      nomore, id, .inr ⟨hh, hat.max_ne.mp hne⟩⟩)
  | data bytes fin hp =>
    obtain ⟨h1, h2, -⟩ := hat.plan hp
    cases fin with
    | false =>
      exact .inr (.inr ⟨u, _, _, hat.advance (n := bytes.length) (by omega),
        by simp [Cx.emit, Cx.markFin, tookAll], rfl, .inl rfl, hsub, le_max_left _ _,
        fun h => ⟨by omega, fun hk => by omega, .inr (.inl (by omega))⟩, id, .inl rfl⟩)
    | true =>
      exact .inr (.inr ⟨u, _, _, (hat.advance (n := bytes.length + 1) (by omega)).congr rfl rfl rfl
        rfl rfl hat.wnd (.inr rfl) rfl, by simp [Cx.emit, Cx.markFin, tookAll], rfl, .inl rfl, hsub,
        le_max_left _ _, fun h => ⟨by omega, fun _ => rfl, .inr (.inl (by omega))⟩, fun _ => rfl,
        .inl rfl⟩)
  | fin hp hn heq =>
    have hx : x = u + c.pcb.snd.buffered := by
      have h1 := hat.dataEnd
      obtain ⟨h2, h3, -⟩ := hat.reach
      have h4 := hat.nxt_max
      rwa [← heq, hat.nxt, eq_fwd (by omega) (by omega)] at h1
    -- a FIN that is acknowledged is not sent once more
    exact .inr (.inr ⟨u, _, _, (hat.advance (n := 1) (by omega)).congr rfl rfl rfl rfl rfl hat.wnd
      (.inr rfl) rfl, by simp [Cx.emit, Cx.markFin, tookAll], rfl, .inl rfl, hsub, le_max_left _ _,
      fun h => ⟨by omega, fun _ => rfl,
        .inr (.inr ⟨hp, fun hs he => hn (hat.finAcked.mpr ⟨hs, he⟩)⟩)⟩, fun _ => rfl, .inl rfl⟩)
  | head bytes hKh hg hcopy =>
    have hlt := hat.in_flight hg
    obtain ⟨n, hn, h1, h2⟩ := hat.head_span (Snd.length_copyOut hcopy)
    refine .inr (.inr ⟨u, x, Max.max m (u + n), ?_, by simp [Cx.emitAt, Cx.emit, tookAll], rfl,
      .inl rfl, hsub, le_max_left _ _, fun h => ⟨by omega, fun hk => h2 (by omega), .inl hlt⟩, id,
      .inl rfl⟩)
    rw [← hn] at h1 ⊢
    exact hat.resend h1
  | acked ack hh hKa hlt hle =>
    obtain ⟨a, rfl, h1, h2⟩ := hat.ack_pos hlt hle (hK.ack hKa)
    obtain ⟨h3, h4⟩ := hat.acked h1 h2
    exact .inr (.inr ⟨a, _, m, h3, rfl, rfl, .inr ⟨hh, h1, h2⟩, h4, le_refl _,
      nomore, id, .inr ⟨hh, by omega⟩⟩)

/-- Where an act of the sending side leaves the positions of a block without text. -/
theorem Mute.sact (hK : K.Tame) (hat : c.pcb.snd.At isn u x m) (h : Mute isn u m c)
    (ha : SAct K c c') :
    ∃ u' x' m', c'.pcb.snd.At isn u' x' m' ∧ Mute isn u' m' c' := by
  have hk := ha.kept
  have hempty := h.empty
  obtain ⟨-, hw, -⟩ | ⟨-, hw, -⟩ | ⟨v, y, k, hat', hs⟩ := ha.sends hK hat
  · exact absurd hw h.silent
  · exact absurd hw h.silent
  have hcount := hs.count
  refine ⟨v, y, k, hat', hs.took.trans h.none, by omega, ?_, ?_, ?_, ?_⟩ <;> rw [hk.state]
  · exact h.silent
  · intro hh
    obtain ⟨h1, h2⟩ := h.half hh
    exact ⟨(hs.una.resolve_right fun h => h.1 hh).symm.trans h1, ha.opened h2⟩
  · -- nothing is in flight and nothing is to be sent
    intro hc
    have h1 := h.closed hc
    have h2 := (h.calm (.inr hc)).1
    have h3 := hs.ge
    have h4 := hs.una
    by_contra hne
    rcases (hs.max (by omega)).2.2 with h5 | h5 | ⟨h5, -⟩
    · omega
    · omega
    · rw [h2] at h5
      cases h5
  · rw [hk.finPending]
    intro hh
    refine ⟨(h.calm hh).1, (hs.calm.resolve_right fun hr => ?_).trans (h.calm hh).2⟩
    rcases hh with hh | hh
    · exact hr.1 hh
    · have := h.closed hh
      omega

/-- An act that takes no bytes from the application. -/
theorem Fed.keep (h : Fed isn u m c) (hst : c'.pcb.state = c.pcb.state)
    (hfp : c'.pcb.snd.finPending = c.pcb.snd.finPending) {v k : Nat}
    (ho : .opened isn ∈ c'.log) (htook : tookAll c'.log = tookAll c.log) (hu : u ≤ v)
    (hcount : c'.pcb.snd.buffered = (tookAll c.log).length + 1 - v)
    (hlast : k ≤ (tookAll c.log).length + 2)
    (hfin : k = (tookAll c.log).length + 2 → c'.pcb.snd.finSent)
    (hbuf : c'.pcb.snd.buf = c.pcb.snd.buf) : Fed isn v k c' where
  opened := ho
  pos := h.pos.trans hu
  count := htook.symm ▸ hcount
  last := htook.symm ▸ hlast
  fin := htook.symm ▸ hfin
  shut := by
    rw [hfp, hst]
    exact h.shut
  idle := by
    rw [hst, hbuf]
    intro hw hb
    have h1 := h.idle hw hb
    have h2 := h.count
    omega
  ring := by
    rw [hbuf, htook]
    exact fun f hf => (h.ring f hf).mono fun i hi => ⟨hu.trans hi.1, hi.2⟩
  open_ := hst ▸ h.open_

/-- While the application may write, nothing but text has been sent. -/
theorem Fed.writing (h : Fed isn u m c) (hat : c.pcb.snd.At isn u x m)
    (hf : c.pcb.snd.finSent → c.pcb.snd.finPending) (hw : c.pcb.state.writes) :
    m ≤ (tookAll c.log).length + 1 ∧ u + c.pcb.snd.buffered = (tookAll c.log).length + 1 := by
  have h1 := h.last
  have h2 := h.count
  have h3 := hat.una_nxt
  have h4 := hat.nxt_max
  have hno : m ≠ (tookAll c.log).length + 2 := fun hm => h.shut (hf (h.fin hm)) hw
  omega

/-- `TcpSend` takes bytes. -/
theorem Fed.took (h : Fed isn u m c) (hat : c.pcb.snd.At isn u x m)
    (hf : c.pcb.snd.finSent → c.pcb.snd.finPending) {data : List Byte} (hw : c.pcb.state.writes)
    (hne : c.pcb.snd.buf ≠ none) (hlen : data.length ≤ c.pcb.snd.size - c.pcb.snd.buffered) :
    Fed isn u m ((c.setSnd (c.pcb.snd.enqueue data)).put (.took data)) := by
  obtain ⟨hm, hu⟩ := h.writing hat hf hw
  have hpos := h.pos
  have hroom := hat.room
  have hdend := hat.dataEnd
  rw [hat.size] at hlen
  have htook : tookAll (c.log ++ [.took data]) = tookAll c.log ++ data := by simp [tookAll]
  have hT : (tookAll (c.log ++ [.took data])).length = (tookAll c.log).length + data.length := by
    rw [htook, List.length_append]
  refine ⟨List.mem_append_left _ h.opened, hpos, ?_, ?_, ?_, h.shut, ?_, ?_, h.open_⟩
  · change c.pcb.snd.buffered + data.length = _
    simp only [Cx.put_log, Cx.setSnd_log]
    omega
  · simp only [Cx.put_log, Cx.setSnd_log]
    omega
  · simp only [Cx.put_log, Cx.setSnd_log]
    intro hlast
    exact h.fin (by omega)
  · intro _ hb
    exact absurd (Option.map_eq_none_iff.mp hb) hne
  · intro f hb
    obtain ⟨g, hg, rfl⟩ := Option.map_eq_some_iff.mp hb
    have hsame : Ring.Holds tcpSndBuf isn.toNat
        (fun i => (tookAll c.log ++ data).getD (i - 1) 0)
        (fun i => u ≤ i ∧ i < (tookAll c.log).length + 1) g := fun i hi => by
      dsimp only
      rw [List.getD_append _ _ _ _ (by omega)]
      exact h.ring g hg i hi
    have hfits : data.length ≤ tcpSndBuf := by omega
    have hput := hsame.put (p := u + c.pcb.snd.buffered) (by decide) hfits
      (fun i hi => by
        rw [List.getD_eq_getElem?_getD, List.getElem?_append_right (by omega),
          List.getElem?_eq_getElem (by omega), Option.getD_some]
        congr 1
        omega) (fun i hi => by omega)
    rw [hdend, hat.size, cell_fwd isn _ (n := tcpSndBuf) (k := 15) rfl (by decide)]
    simp only [Cx.put_log, Cx.setSnd_log, htook, List.length_append]
    exact hput.mono fun i hi => by omega

/-- Where an act of the sending side leaves the positions of an established connection. -/
theorem Fed.sact (hK : K.Tame) (hat : c.pcb.snd.At isn u x m) (h : Fed isn u m c)
    (hf : c.pcb.snd.finSent → c.pcb.snd.finPending) (ha : SAct K c c') :
    ∃ u' x' m', c'.pcb.snd.At isn u' x' m' ∧ Fed isn u' m' c' := by
  have hk := ha.kept
  have ho := ha.opened h.opened
  have hcount := h.count
  have hlast := h.last
  have hfin := h.fin
  obtain ⟨b, hw, hb, rfl⟩ | ⟨data, hw, hne, hlen, rfl⟩ | ⟨v, y, k, hat', hs⟩ := ha.sends hK hat
  · have hnil := h.idle hw hb
    refine ⟨u, x, m, hat.congr rfl rfl rfl rfl rfl hat.wnd (.inr rfl) rfl, ⟨h.opened, h.pos, hcount,
      hlast, hfin, h.shut, nofun, fun f hf i hi => ?_, h.open_⟩⟩
    simp only [Cx.setSnd_log] at hi
    omega
  · exact ⟨u, x, m, hat.enqueue hlen, h.took hat hf hw hne hlen⟩
  have hc := hs.count
  have hu := hs.una
  have hge := hs.ge
  -- a FIN that was sent is the last number
  have hroom : m < k → u ≤ (tookAll c.log).length + 1 := fun hlt => by
    by_contra hgt
    obtain ⟨-, -, h1 | h1 | ⟨-, h1⟩⟩ := hs.max hlt
    · omega
    · omega
    · have := hat.una_nxt.trans hat.nxt_max
      exact h1 (hfin (by omega)) (by omega)
  refine ⟨v, y, k, hat', h.keep hk.state hk.finPending ho hs.took (by omega) (by omega) ?_ ?_ hs.buf⟩
  · rcases Nat.eq_or_lt_of_le hge with rfl | hlt
    · exact hlast
    · have := hroom hlt
      have := (hs.max hlt).1
      omega
  · intro hk
    rcases Nat.eq_or_lt_of_le hge with rfl | hlt
    · exact hs.sent (hfin hk)
    · have := hroom hlt
      exact (hs.max hlt).2.1 (by omega)

/-! ## All acts -/

/-- An act that the sending side does not notice. -/
theorem SendInv.quiet (h : SendInv c) (hst : c'.pcb.state = c.pcb.state)
    (hsnd : c'.pcb.snd = { c.pcb.snd with wnd := c'.pcb.snd.wnd, maxWnd := c'.pcb.snd.maxWnd })
    (hwnd : c'.pcb.snd.wnd = c.pcb.snd.wnd ∨ c'.pcb.snd.wnd < 2 ^ 16)
    (hlog : ∀ o ∈ c.log, o ∈ c'.log) (htook : tookAll c'.log = tookAll c.log) : SendInv c' := by
  obtain ⟨hf, isn, u, x, m, hat, hmode⟩ := h
  have h1 : c'.pcb.snd.finPending = c.pcb.snd.finPending := by rw [hsnd]
  have h2 : c'.pcb.snd.finSent = c.pcb.snd.finSent := by rw [hsnd]
  have h3 : c'.pcb.snd.buffered = c.pcb.snd.buffered := by rw [hsnd]
  have h4 : c'.pcb.snd.buf = c.pcb.snd.buf := by rw [hsnd]
  have h5 : c'.pcb.snd.inRecovery = c.pcb.snd.inRecovery := by rw [hsnd]
  have hw : c'.pcb.snd.wnd < 2 ^ 16 := hwnd.elim (fun h => h ▸ hat.wnd) id
  refine ⟨by rw [h1, h2]; exact hf, isn, u, x, m, ?_, hmode.imp (fun hm => ?_) fun hm => ?_⟩
  · exact hat.congr (by rw [hsnd]) (by rw [hsnd]) (by rw [hsnd]) h3 (by rw [hsnd]) hw
      (.inr (by rw [hsnd])) h5
  · refine ⟨htook.trans hm.none, h3.trans hm.empty, hst ▸ hm.silent, ?_, hst ▸ hm.closed, ?_⟩
    · rw [hst]
      exact fun hh => ⟨(hm.half hh).1, hlog _ (hm.half hh).2⟩
    · rw [hst, h1, h5]
      exact hm.calm
  · exact hm.keep hst h1 (hlog _ hm.opened) htook (le_refl _) (h3.trans hm.count) hm.last
      (h2 ▸ hm.fin) h4

/-- The block moves on to a state without new text. -/
theorem SendInv.move (h : SendInv c)
    (hsnd : c'.pcb.snd = { c.pcb.snd with
      finPending := c'.pcb.snd.finPending, buf := c'.pcb.snd.buf })
    (hpend : c.pcb.snd.finPending → c'.pcb.snd.finPending)
    (hbuf : c'.pcb.snd.buf = c.pcb.snd.buf ∨ c'.pcb.snd.buf = none)
    (hst' : ¬c'.pcb.state.halfOpen ∧ c'.pcb.state ≠ .closed)
    (hw : c'.pcb.state.writes →
      c.pcb.state.writes ∧ c'.pcb.snd.finPending = c.pcb.snd.finPending ∧
        c'.pcb.snd.buf = c.pcb.snd.buf)
    (hlog : c'.log = c.log) : SendInv c' := by
  obtain ⟨hf, isn, u, x, m, hat, hmode⟩ := h
  have h2 : c'.pcb.snd.finSent = c.pcb.snd.finSent := by rw [hsnd]
  have h3 : c'.pcb.snd.buffered = c.pcb.snd.buffered := by rw [hsnd]
  refine ⟨by rw [h2]; exact fun h => hpend (hf h), isn, u, x, m, ?_,
    hmode.imp (fun hm => ?_) fun hm => ?_⟩
  · exact hat.congr (by rw [hsnd]) (by rw [hsnd]) (by rw [hsnd]) h3 (by rw [hsnd])
      (by rw [hsnd]; exact hat.wnd) (.inr (by rw [hsnd])) (by rw [hsnd])
  · exact ⟨hlog ▸ hm.none, h3.trans hm.empty, fun h => hm.silent (hw h).1,
      fun h => absurd h hst'.1, fun h => absurd h hst'.2,
      fun h => (h.elim (fun h => absurd h hst'.1) fun h => absurd h hst'.2)⟩
  · refine ⟨hlog ▸ hm.opened, hm.pos, ?_, hlog ▸ hm.last, ?_, ?_, ?_, ?_, hst'.2, hst'.1⟩
    · rw [h3, hlog]
      exact hm.count
    · rw [h2, hlog]
      exact hm.fin
    · intro hp hw'
      obtain ⟨h4, h5, -⟩ := hw hw'
      exact hm.shut (h5 ▸ hp) h4
    · intro hw' hb
      obtain ⟨h4, -, h5⟩ := hw hw'
      rw [h3]
      exact hm.idle h4 (h5 ▸ hb)
    · intro f hb
      rw [hlog]
      rcases hbuf with h4 | h4
      · exact hm.ring f (h4 ▸ hb)
      · rw [h4] at hb
        cases hb

/-- The SYN is acknowledged, and the application may write. -/
theorem Mute.open (h : Mute isn u m c) (hat : c.pcb.snd.At isn u x m)
    (hh : c.pcb.state.halfOpen) (hne : c.pcb.snd.nxt ≠ c.pcb.snd.una)
    (hst : d.pcb.state = .established) (hlog : ∀ o ∈ c.log, o ∈ d.log)
    (htook : tookAll d.log = tookAll c.log) (hfp : d.pcb.snd.finPending = c.pcb.snd.finPending)
    (hat' : Snd.At isn 1 1 1 { c.pcb.snd with una := c.pcb.snd.nxt } → d.pcb.snd.At isn 1 1 1)
    (hbuf : d.pcb.snd.buffered = c.pcb.snd.buffered) :
    d.pcb.snd.At isn 1 1 1 ∧ Fed isn 1 1 d := by
  obtain ⟨rfl, ho⟩ := h.half hh
  obtain ⟨hfin, hcalm⟩ := h.calm (.inl hh)
  have h0 : d.pcb.snd.buffered = 0 := hbuf.trans h.empty
  have htook' : tookAll d.log = [] := htook.trans h.none
  refine ⟨hat' (hat.synAcked h.empty hne hcalm), ⟨hlog _ ho, le_refl _, ?_, ?_, ?_, ?_, fun _ _ => h0,
    fun f _ i hi => ?_, ?_⟩⟩
  · rw [h0, htook']
    rfl
  · omega
  · rw [htook']
    intro h
    cases h
  · rw [hfp, hfin]
    exact fun h => absurd h Bool.false_ne_true
  · rw [htook'] at hi
    simp only [List.length_nil] at hi
    omega
  · rw [hst]
    decide

theorem TcpState.halfOpen_silent {st : TcpState} (h : st.halfOpen) :
    ¬st.writes ∧ st ≠ .closed := by
  revert h
  cases st <;> decide

/-- A new initial sequence number. -/
theorem Mute.drawn (h : Mute isn u m c) (hcl : c.pcb.state = .closed) {isn' : Seq} {m' : Nat}
    (htook : tookAll d.log = tookAll c.log) (ho : .opened isn' ∈ d.log)
    (hst : d.pcb.state.halfOpen) (hbuf : d.pcb.snd.buffered = c.pcb.snd.buffered)
    (hfp : d.pcb.snd.finPending = c.pcb.snd.finPending)
    (hrec : d.pcb.snd.inRecovery = c.pcb.snd.inRecovery) : Mute isn' 0 m' d := by
  obtain ⟨h1, h2⟩ := h.calm (.inr hcl)
  obtain ⟨h3, h4⟩ := TcpState.halfOpen_silent hst
  exact ⟨htook.trans h.none, hbuf.trans h.empty, h3, fun _ => ⟨rfl, ho⟩, fun h => absurd h h4,
    fun _ => ⟨hfp.trans h1, hrec.trans h2⟩⟩

/-- The SYN goes out once more, or fails to. -/
theorem Mute.half_open (h : Mute isn u m c) (hh : c.pcb.state.halfOpen)
    (hh' : d.pcb.state.halfOpen) (hlog : ∀ o ∈ c.log, o ∈ d.log)
    (htook : tookAll d.log = tookAll c.log) (hbuf : d.pcb.snd.buffered = c.pcb.snd.buffered)
    (hfp : d.pcb.snd.finPending = c.pcb.snd.finPending)
    (hrec : d.pcb.snd.inRecovery = c.pcb.snd.inRecovery) (m' : Nat) : Mute isn u m' d := by
  obtain ⟨h1, h2⟩ := h.calm (.inl hh)
  obtain ⟨h3, h4⟩ := h.half hh
  obtain ⟨h5, h6⟩ := TcpState.halfOpen_silent hh'
  exact ⟨htook.trans h.none, hbuf.trans h.empty, h5, fun _ => ⟨h3, hlog _ h4⟩,
    fun h => absurd h h6, fun _ => ⟨hfp.trans h1, hrec.trans h2⟩⟩

/-- Only a block without text is closed or half open. -/
theorem SendInv.mute (h : SendInv c) (hst : c.pcb.state = .closed ∨ c.pcb.state.halfOpen) :
    ∃ isn u x m, c.pcb.snd.At isn u x m ∧ Mute isn u m c ∧ ¬c.pcb.snd.finSent ∧
      c.pcb.snd.inRecovery = false := by
  obtain ⟨hf, isn, u, x, m, hat, hm | hm⟩ := h
  · obtain ⟨h1, h2⟩ := hm.calm hst.symm
    refine ⟨isn, u, x, m, hat, hm, fun hs => ?_, h2⟩
    have := hf hs
    rw [h1] at this
    cases this
  · rcases hst with h' | h'
    · exact absurd h' hm.open_.1
    · exact absurd h' hm.open_.2

theorem TcpState.afterClose_silent {st : TcpState} (h : st.writes ∨ st = .synRcvd) :
    ¬st.afterClose.writes ∧ ¬st.afterClose.halfOpen ∧ st.afterClose ≠ .closed := by
  revert h
  cases st <;> decide

theorem TcpState.afterFin_open {st : TcpState} (h : st.texts) :
    (st.afterFin.writes → st.writes) ∧ ¬st.afterFin.halfOpen ∧ st.afterFin ≠ .closed := by
  revert h
  cases st <;> decide

/-- The sending side of a passive open. -/
theorem SendInv.accepting (h : SendInv c) (hst : c.pcb.state = .closed) (listener : Nat)
    (seg : Segment) (isn' : Seq) (hsnd : c'.pcb.snd = (c.pcb.accepting listener seg isn').snd ∨
      c'.pcb.snd = (c.pcb.accepting listener seg isn').snd.advance 1)
    (htook : tookAll c'.log = tookAll c.log) (ho : .opened isn' ∈ c'.log)
    (hh : c'.pcb.state.halfOpen) : SendInv c' := by
  obtain ⟨isn, u, x, m, hat, hm, hf, hr⟩ := h.mute (.inl hst)
  have hmss : (c.pcb.accepting listener seg isn').snd = { c.pcb.snd with
      wnd := seg.window, nxt := isn', una := isn', max := isn'
      mss := (c.pcb.accepting listener seg isn').snd.mss
      cwnd := (c.pcb.accepting listener seg isn').snd.cwnd
      ssthresh := 2 ^ 32 - 1, recover := isn' } := by
    unfold Pcb.accepting
    dsimp only
    rw [Snd.consumeMss_eq]
    rfl
  have h0 : (c.pcb.accepting listener seg isn').snd.At isn' 0 0 0 := by
    rw [hmss]
    exact .drawn rfl rfl rfl hm.empty hat.size seg.narrow hr
  rcases hsnd with hsnd | hsnd
  · refine ⟨fun h => ?_, isn', 0, 0, 0, hsnd ▸ h0, .inl ?_⟩
    · rw [hsnd, hmss] at h
      exact absurd h hf
    · refine hm.drawn hst htook ho hh ?_ ?_ ?_ <;> rw [hsnd, hmss]
  · refine ⟨fun h => ?_, isn', 0, 1, 1, hsnd ▸ h0.advance (n := 1) (by omega), .inl ?_⟩
    · rw [hsnd, hmss] at h
      exact absurd h hf
    · refine hm.drawn hst htook ho hh ?_ ?_ ?_ <;> rw [hsnd, hmss] <;> rfl

theorem SendInv.act (hK : K.Tame) (h : SendInv c) (ha : Act K c c') (hact : c'.pcb.active) :
    SendInv c' := by
  cases ha with
  | send ha =>
    obtain ⟨hf, isn, u, x, m, hat, hm | hm⟩ := h
    · obtain ⟨u', x', m', hat', hm'⟩ := hm.sact hK hat ha
      exact ⟨ha.finSent hat hf, isn, u', x', m', hat', .inl hm'⟩
    · obtain ⟨u', x', m', hat', hm'⟩ := hm.sact hK hat hf ha
      exact ⟨ha.finSent hat hf, isn, u', x', m', hat', .inr hm'⟩
  | heard w hw =>
    exact h.quiet rfl rfl (.inr hw) (fun o ho => List.mem_append_left _ ho) (by simp [tookAll])
  | seeFin | deliver | store => exact h.quiet rfl rfl (.inl rfl) (fun o ho => ho) rfl
  | gave | fault =>
    exact h.quiet rfl rfl (.inl rfl) (fun o ho => List.mem_append_left _ ho) (by simp [tookAll])
  | takeFin ht =>
    obtain ⟨h1, h2⟩ := TcpState.afterFin_open ht
    exact h.move rfl id (.inl rfl) h2 (fun hw => ⟨h1 hw, rfl, rfl⟩) rfl
  | bury =>
    exact h.move rfl id (.inr rfl) ⟨Bool.false_ne_true, nofun⟩ nofun rfl
  | shut _ hst =>
    obtain ⟨h1, h2⟩ := TcpState.afterClose_silent hst
    exact h.move rfl (fun _ => rfl) (.inl rfl) h2 (fun hw => absurd hw h1) rfl
  | finWait2 =>
    exact h.move rfl id (.inl rfl) ⟨Bool.false_ne_true, nofun⟩ nofun rfl
  | release | stillborn | abort => cases hact
  | connect isn' hst =>
    obtain ⟨isn, u, x, m, hat, hm, hf, hr⟩ := h.mute (.inl hst)
    have h0 : (c.pcb.opening isn').snd.At isn' 0 0 0 :=
      .drawn rfl rfl rfl hm.empty hat.size hat.wnd hr
    refine ⟨fun h => ?_, isn', 0, 1, 1, h0.advance (n := 1) (by omega), .inl ?_⟩
    · exact absurd h hf
    · exact hm.drawn hst (by simp [Cx.emit, tookAll]) (by simp [Cx.emit]) rfl rfl rfl rfl
  | accept listener seg isn' hst =>
    exact h.accepting hst listener seg isn' (.inr rfl) (by simp [Cx.emit, tookAll])
      (by simp [Cx.emit]) rfl
  | acceptLost listener seg isn' hst =>
    exact h.accepting hst listener seg isn' (.inl rfl) (by simp [tookAll]) (by simp) rfl
  | cross seg hst =>
    have hh : c.pcb.state.halfOpen := by rw [hst]; rfl
    obtain ⟨isn, u, x, m, hat, hm, hf, hr⟩ := h.mute (.inr hh)
    have hsnd : (c.pcb.crossing seg).snd = { c.pcb.snd with
        mss := (c.pcb.snd.consumeMss seg).mss
        cwnd := (c.pcb.crossing seg).snd.cwnd
        ssthresh := 2 ^ 32 - 1, recover := c.pcb.snd.una } := by
      unfold Pcb.crossing
      rw [Snd.consumeMss_eq]
      rfl
    refine ⟨fun h => ?_, isn, u, x, m, ?_, .inl ?_⟩
    · rw [Cx.setPcb_pcb, hsnd] at h
      exact absurd h hf
    · rw [Cx.setPcb_pcb, hsnd]
      exact hat.congr rfl rfl rfl rfl rfl hat.wnd (.inl hr) rfl
    · refine hm.half_open (d := c.setPcb (c.pcb.crossing seg)) hh rfl (fun o ho => ho) rfl ?_ ?_ ?_
        m <;> rw [Cx.setPcb_pcb, hsnd]
  | syn ack hst =>
    obtain ⟨isn, u, x, m, hat, hm, hf, hr⟩ := h.mute (.inr hst)
    refine ⟨fun h => ?_, isn, u, u + 1, Max.max m (u + 1), hat.rewind.advance (n := 1) ?_, .inl ?_⟩
    · exact absurd h hf
    · change u + 1 ≤ u + c.pcb.snd.buffered + 1
      omega
    · refine hm.half_open (d := (c.setSnd { c.pcb.snd with nxt := c.pcb.snd.una }).emit
        { syn := true, ack := ack } []) hst hst (fun o ho => ?_) ?_ rfl rfl rfl _
      · exact List.mem_append_left _ ho
      · simp [Cx.emit, tookAll]
  | synLost hst =>
    obtain ⟨isn, u, x, m, hat, hm, hf, hr⟩ := h.mute (.inr hst)
    refine ⟨fun h => ?_, isn, u, u, m, hat.rewind, .inl ?_⟩
    · exact absurd h hf
    · exact hm.half_open (d := c.setSnd { c.pcb.snd with nxt := c.pcb.snd.una }) hst hst
        (fun o ho => ho) rfl rfl rfl rfl _
  | openActive seg b hst hsyn hdone =>
    have hh : c.pcb.state.halfOpen := by rw [hst]; rfl
    obtain ⟨isn, u, x, m, hat, hm, hf, hr⟩ := h.mute (.inr hh)
    have hsnd : (c.openActive seg b).pcb.snd = { c.pcb.snd with
        una := c.pcb.snd.nxt
        mss := (c.openActive seg b).pcb.snd.mss
        cwnd := (c.openActive seg b).pcb.snd.cwnd
        ssthresh := 2 ^ 32 - 1, recover := c.pcb.snd.nxt } := by
      unfold Cx.openActive
      dsimp only
      rw [Snd.consumeMss_eq]
      rfl
    obtain ⟨hat', hfed⟩ := hm.open (d := c.openActive seg b) hat hh (hK.done hdone) rfl
      (fun o ho => List.mem_append_left _ ho) (by simp [Cx.openActive, Cx.establish, tookAll])
      (by rw [hsnd]) (fun h1 => by
        rw [hsnd]
        exact h1.congr rfl rfl rfl rfl rfl h1.wnd (.inl hr) rfl) (by rw [hsnd])
    refine ⟨fun h => ?_, isn, 1, 1, 1, hat', .inr hfed⟩
    rw [hsnd] at h
    exact absurd h hf
  | openPassive b hst hdone =>
    have hh : c.pcb.state.halfOpen := by rw [hst]; rfl
    obtain ⟨isn, u, x, m, hat, hm, hf, hr⟩ := h.mute (.inr hh)
    obtain ⟨hat', hfed⟩ := hm.open (d := c.openPassive b) hat hh (hK.done hdone) rfl
      (fun o ho => List.mem_append_left _ ho) (by simp [Cx.openPassive, Cx.establish, tookAll]) rfl
      id rfl
    exact ⟨fun h => absurd h hf, isn, 1, 1, 1, hat', .inr hfed⟩

/-! ## The log -/

theorem Snd.copyOut_nil {s : Snd} {len : Nat} {bytes : List Byte} (hb : s.buf = none)
    (h : s.copyOut len = some bytes) : bytes = [] := by
  unfold Snd.copyOut at h
  split at h
  · exact (Option.some.inj h).symm
  · rw [hb] at h
    cases h

/-- What a copy out of the ring of a block puts on the wire. -/
theorem SendInv.carried (htidy : c.Tidy) (h : c.pcb.active → SendInv c) {s : Snd}
    (bytes : List Byte) {sg : Sent} (hbuf : s.buf = c.pcb.snd.buf) (hsize : s.size = c.pcb.snd.size)
    (hpos : ∀ {isn u x m}, c.pcb.snd.At isn u x m → ∃ p, s.nxt = fwd isn p ∧ u ≤ p ∧
      p + bytes.length ≤ u + c.pcb.snd.buffered)
    (hcopy : s.copyOut bytes.length = some bytes) (hseq : sg.seq = s.nxt) (hdata : sg.data = bytes) :
    Carried c.log (.sent sg) := by
  intro hne
  rw [hdata] at hne
  rcases htidy with hact | ⟨-, hnone⟩
  · obtain ⟨hf, isn, u, x, m, hat, hmode⟩ := h hact
    obtain ⟨p, hp, hup, hlen⟩ := hpos hat
    have hl := List.length_pos_of_ne_nil hne
    rcases hmode with hm | hm
    · have := hm.empty
      omega
    · have h1 := hm.count
      obtain ⟨k, h2, h3, h4⟩ := hm.copyOut hat.size hbuf hsize hp hup (by omega) hat.room hcopy hne
      exact ⟨isn, k, hm.opened, hseq.trans h2, hdata ▸ h3, h4⟩
  · exact absurd (Snd.copyOut_nil (hbuf.trans hnone) hcopy) hne

/-- An entry without text that does not end a handshake. -/
def Out.Plain : Out → Prop
  | .sent sg => sg.data = []
  | .established .. => False
  | _ => True

section Each
variable {P : List Out → Out → Prop} (hlog : Each P c.log) (hplain : ∀ before o, o.Plain → P before o)
include hlog hplain

/-- What acts of the sending side add to the log. -/
theorem SAct.each (ha : SAct K c c')
    (hdata : ∀ bytes fin, c.pcb.snd.plan = some (bytes.length, fin) →
      c.pcb.snd.copyOut bytes.length = some bytes →
      P c.log (.sent (c.pcb.segment { ack := true, fin := fin } bytes)))
    (hhead : ∀ bytes, K.head c.pcb.snd →
      Snd.copyOut { c.pcb.snd with nxt := c.pcb.snd.una } c.pcb.snd.head.1 = some bytes →
      P c.log (.sent { c.pcb.segment { ack := true, fin := c.pcb.snd.head.2 } bytes with
        seq := c.pcb.snd.una })) : Each P c'.log := by
  cases ha with
  | data bytes fin hp hcopy =>
    have hnew := hlog.concat (hdata bytes fin hp hcopy)
    cases fin <;> exact hnew
  | head bytes hK _ hcopy => exact hlog.concat (hhead bytes hK hcopy)
  | bare | fin | probe => exact hlog.concat (hplain _ _ rfl)
  | took | fault => exact hlog.concat (hplain _ _ trivial)
  | _ => exact hlog

theorem tcpAbort_each : Each P (tcpAbort c).log := by
  refine Each.concat ?_ (hplain _ _ trivial)
  rcases tcpOutput_cases c { rst := true, ack := true } 0 with
    ⟨-, h⟩ | ⟨-, h⟩ | ⟨hc, -⟩ | ⟨-, bytes, hc, h⟩
  · rw [h]
    exact hlog
  · rw [h]
    exact hlog
  · cases hc
  · cases hc
    rw [h]
    exact hlog.concat (hplain _ _ rfl)

/-- What acts add to the log. -/
theorem Act.each (ha : Act K c c') (hsend : ∀ {d}, SAct K c d → Each P d.log)
    (hopen : c.pcb.state.halfOpen → K.done c.pcb.snd →
      P c.log (.established c.pcb.snd.nxt c.pcb.snd.nxt c.pcb.snd.nxt c.pcb.snd.max)) :
    Each P c'.log := by
  have hdrawn : ∀ isn, Each P (c.log ++ [.opened isn]) := fun _ => hlog.concat (hplain _ _ trivial)
  have hheard : ∀ isn w, Each P (c.log ++ [.opened isn] ++ [.heard w]) := fun isn _ =>
    (hdrawn isn).concat (hplain _ _ trivial)
  cases ha with
  | send ha => exact hsend ha
  | heard | gave | fault | release => exact hlog.concat (hplain _ _ trivial)
  | stillborn => exact (hdrawn _).concat (hplain _ _ trivial)
  | connect => exact (hdrawn _).concat (hplain _ _ rfl)
  | accept listener seg => exact (hheard _ seg.window).concat (hplain _ _ rfl)
  | acceptLost listener seg => exact hheard _ seg.window
  | syn => exact hlog.concat (hplain _ _ rfl)
  | abort => exact tcpAbort_each hlog hplain
  | openActive _ _ hst _ hdone => exact hlog.concat (hopen (by rw [hst]; rfl) hdone)
  | openPassive _ hst hdone => exact hlog.concat (hopen (by rw [hst]; rfl) hdone)
  | _ => exact hlog

end Each

theorem Act.carried (ha : Act K c c') (htidy : c.Tidy) (h : c.pcb.active → SendInv c)
    (hlog : Each Carried c.log) : Each Carried c'.log := by
  have hplain : ∀ before (o : Out), o.Plain → Carried before o := by
    intro before o ho
    cases o with
    | sent sg => exact fun hne => absurd ho hne
    | _ => trivial
  refine ha.each hlog hplain (fun hs => hs.each hlog hplain (fun bytes fin hp hcopy => ?_)
    fun bytes _ hcopy => ?_) fun _ _ => trivial
  · exact SendInv.carried htidy h bytes rfl rfl
      (fun hat => ⟨_, hat.nxt, hat.una_nxt, (hat.plan hp).2.1⟩) hcopy rfl rfl
  · have hlen := Snd.length_copyOut hcopy
    refine SendInv.carried htidy h (s := { c.pcb.snd with nxt := c.pcb.snd.una }) bytes rfl rfl
      (fun hat => ⟨_, hat.una, le_refl _, ?_⟩) (hlen ▸ hcopy) rfl rfl
    have := hat.head.1
    omega

/-! ## Runs -/

/-- Steps that keep the numbers of a connection: no ACK half a turn ahead while nothing is in
flight, and no handshake completed by an ACK of the initial sequence number. -/
def Sober (s : Conn) (l : Op × Env) : Prop :=
  match l.1 with
  | .rx seg => seg.flags.ack → seg.flags.rst = false →
      (s.pcb.snd.max = s.pcb.snd.una → seg.ack ≠ fwd s.pcb.snd.una (2 ^ 31)) ∧
      (s.pcb.state.halfOpen → seg.ack = s.pcb.snd.nxt → s.pcb.snd.nxt ≠ s.pcb.snd.una)
  | _ => True

instance (s : Conn) (l : Op × Env) : Decidable (Sober s l) := by
  unfold Sober
  split <;> infer_instance

/-- The acts of sober steps. -/
def soberKit : Kit :=
  { Kit.all with
    ack := fun s a => s.max = s.una → a ≠ fwd s.una (2 ^ 31)
    done := fun s => s.nxt ≠ s.una }

theorem soberKit_tame : soberKit.Tame := ⟨id, id⟩

theorem soberKit_allows {s : Conn} {l : Op × Env} (h : Sober s l) :
    soberKit.Allows l.2 (s.cx l.2.tx) l.1 := by
  obtain ⟨op, env⟩ := l
  cases op with
  | rx seg =>
    intro hr
    refine ⟨fun _ => ⟨fun hnew => ?_, fun _ _ _ _ => trivial, fun _ _ _ => trivial⟩,
      fun _ => trivial, fun _ _ _ _ _ => trivial, fun _ _ => trivial, fun hh ha hack => ?_⟩
    · have hack : seg.flags.ack := (of_decide_eq_true hnew).1
      exact (h hack hr).1
    · exact (h ha hr).2 hh hack
  | close => exact fun _ => trivial
  | accept => exact ⟨trivial, trivial⟩
  | _ => trivial

/-- What holds of a connection in a run of sober steps. -/
structure Sound (c : Cx) : Prop where
  tidy : c.Tidy
  inv : c.pcb.active → SendInv c
  log : Each Carried c.log

theorem Sound.act (hK : K.Tame) (h : Sound c) (ha : Act K c c') : Sound c' :=
  ⟨h.tidy.act ha, fun hact => (h.inv (ha.active hact)).act hK ha hact,
    ha.carried h.tidy h.inv h.log⟩

theorem SendInv.setTx (h : SendInv c) (tx : Stream' Tx) : SendInv (c.setTx tx) := by
  obtain ⟨hf, isn, u, x, m, hat, hmode⟩ := h
  exact ⟨hf, isn, u, x, m, hat, hmode.imp
    (fun h => ⟨h.none, h.empty, h.silent, h.half, h.closed, h.calm⟩)
    fun h => ⟨h.opened, h.pos, h.count, h.last, h.fin, h.shut, h.idle, h.ring, h.open_⟩⟩

theorem Sound.setTx (h : Sound c) (tx : Stream' Tx) : Sound (c.setTx tx) :=
  ⟨h.tidy, fun hact => (h.inv hact).setTx tx, h.log⟩

theorem SendInv.fresh (tx : Stream' Tx) : SendInv (Conn.cx ⟨Pcb.fresh, []⟩ tx) := by
  refine ⟨fun h => absurd h Bool.false_ne_true, 0, 0, 0, 0,
    .drawn rfl rfl rfl rfl rfl (Nat.two_pow_pos 16) rfl, .inl ?_⟩
  exact ⟨rfl, rfl, Bool.false_ne_true, fun h => absurd h Bool.false_ne_true, fun _ => rfl,
    fun _ => ⟨rfl, rfl⟩⟩

theorem Sound.fresh (tx : Stream' Tx) : Sound (Conn.cx ⟨Pcb.fresh, []⟩ tx) :=
  ⟨.inl rfl, fun _ => .fresh tx, .nil⟩

theorem sound_reachable {s : Conn} (hs : (tcpRuns Sober).Reachable s) (tx : Stream' Tx) :
    Sound (s.cx tx) :=
  tcp_invariant (fun _ _ => soberKit) (fun _ tx h => h.setTx tx) Sound.fresh
    (fun h ha => h.act soberKit_tame ha) (fun h => soberKit_allows h) hs tx

/-- **Send integrity.** In every run of sober steps, with frames that are sent or not as it may
be: the counters of a connection in use are in order on the circle and its ring is not overfull,
and every data segment that was sent, for the first time or again, carries the bytes that its
number stands for. -/
theorem send_integrity {s : Conn} (hs : (tcpRuns Sober).Reachable s) :
    (s.pcb.active →
      dist s.pcb.snd.una s.pcb.snd.nxt ≤ dist s.pcb.snd.una s.pcb.snd.max ∧
      dist s.pcb.snd.una s.pcb.snd.max ≤ s.pcb.snd.buffered + 1 ∧
      s.pcb.snd.buffered ≤ s.pcb.snd.size) ∧
    Each Carried s.log := by
  have h := sound_reachable hs (Stream'.const .sent)
  refine ⟨fun hact => ?_, h.log⟩
  obtain ⟨-, isn, u, x, m, hat, -⟩ := h.inv hact
  replace hat : s.pcb.snd.At isn u x m := hat
  obtain ⟨h1, h2⟩ := hat.dist
  have h3 := hat.nxt_max
  have h4 := hat.max_end
  rw [h1, h2, hat.size]
  exact ⟨by omega, by omega, hat.room⟩

/-- A peer opens a connection, and the application writes three bytes. -/
def threeBytes : List (Op × Env) :=
  [(.accept 0 ⟨0, 0, { syn := true }, [], 65535, none, nil_fits, max_fits⟩ 7, .idle),
    (.rx ⟨1, 8, { ack := true }, [], 65535, none, nil_fits, max_fits⟩, .idle),
    (.send [1, 2, 3], .idle)]

theorem send_integrity_threeBytes : ∃ s : Conn, Each Carried s.log ∧
    s.log.any (fun | .sent sg => sg.data == [1, 2, 3] && sg.seq == 8 | _ => false) := by
  obtain ⟨s, hs⟩ := Option.isSome_iff_exists.mp
    (by decide +kernel : (Conn.runs Sober threeBytes).isSome)
  refine ⟨s, (send_integrity (Conn.runs_reachable hs)).2, ?_⟩
  have : (Conn.runs Sober threeBytes).all fun s => s.log.any fun
    | .sent sg => sg.data == [1, 2, 3] && sg.seq == 8
    | _ => false := by decide +kernel
  rw [hs] at this
  exact this

/-- An ACK half a turn ahead of `snd_una`, with nothing in flight; the answer to it is not sent. -/
def halfTurn : List (Op × Env) :=
  threeBytes.take 2 ++
    [(.rx ⟨1, 8 + 2 ^ 31, { ack := true }, [], 65535, none, nil_fits, max_fits⟩,
      { Env.idle with tx := Stream'.const .full })]

/-- Without the condition `snd_max` falls behind `snd_una`. -/
theorem half_turn_ack : ∃ s, tcpSystem.Reachable s ∧ s.pcb.active ∧ s.pcb.state = .established ∧
    ¬dist s.pcb.snd.una s.pcb.snd.max ≤ s.pcb.snd.buffered + 1 := by
  refine ⟨(halfTurn.foldlM Conn.step ⟨Pcb.fresh, []⟩).get (by decide +kernel),
    ⟨_, halfTurn, rfl, LTS.run_of_foldlM (Option.some_get _).symm⟩, ?_, ?_, ?_⟩
  all_goals decide +kernel

end Zuzu.L5
