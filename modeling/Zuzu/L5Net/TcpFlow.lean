import Zuzu.L5Net.TcpSend

/-!
# Flow control

Text is sent up to the window of the peer. The head of the ring is sent again without a look at
the window, as long as the first segment is, whether that much was sent before or not.

**Results.** `flow_control`: in every run of sober steps in which the head of the ring fits when it
is sent again, no text goes past the window or what was sent before. `head_past_window`: without the
condition it does.
-/
namespace Zuzu.L5
open Zuzu.Core Serial
variable {K : Kit} {c c' : Cx} {s : Conn}

/-- The window in the latest segment of the peer. -/
def lastHeard (log : List Out) : Nat :=
  log.foldl (fun w o => match o with | .heard w' => w' | _ => w) 0

@[simp] theorem lastHeard_append (log l : List Out) : lastHeard (log ++ l) =
    l.foldl (fun w o => match o with | .heard w' => w' | _ => w) (lastHeard log) :=
  List.foldl_append

/-- The text of a segment ends inside the window or inside what was sent before. -/
def Controlled (before : List Out) : Out → Prop
  | .sent sg => sg.data ≠ [] → dist sg.una sg.seq + sg.data.length ≤ lastHeard before ∨
      dist sg.una sg.seq + sg.data.length ≤ dist sg.una sg.max
  | _ => True

/-- The head of the ring is inside the window or was sent before. -/
def HeadFits (s : Snd) : Prop := s.head.1 ≤ s.wnd ∨ s.head.1 ≤ dist s.una s.max

/-- A connection and its log. -/
structure Flowing (c : Cx) : Prop where
  sound : Sound c
  wnd : c.pcb.active → c.pcb.snd.wnd = lastHeard c.log
  log : Each Controlled c.log

theorem SAct.wnd (ha : SAct K c c') : c'.pcb.snd.wnd = c.pcb.snd.wnd ∧
    lastHeard c'.log = lastHeard c.log := by
  cases ha with
  | data bytes fin => cases fin <;> exact ⟨rfl, by simp [Cx.emit, Cx.markFin]⟩
  | bare | fin | head | probe | took | fault =>
    exact ⟨rfl, by simp [Cx.emit, Cx.emitAt, Cx.markFin]⟩
  | _ => exact ⟨rfl, rfl⟩

theorem Flowing.data (h : Flowing c) {fin : Bool} {bytes : List Byte} (hne : bytes ≠ [])
    (hp : c.pcb.snd.plan = some (bytes.length, fin))
    (hcopy : c.pcb.snd.copyOut bytes.length = some bytes) :
    dist c.pcb.snd.una c.pcb.snd.nxt + bytes.length ≤ lastHeard c.log := by
  rcases h.sound.tidy with hact | ⟨-, hnone⟩
  · obtain ⟨-, isn, u, x, m, hat, -⟩ := h.sound.inv hact
    have h1 := hat.dist.1
    have h2 := hat.plan hp
    have h3 := hat.una_nxt
    have h4 := h.wnd hact
    omega
  · exact absurd (Snd.copyOut_nil hnone hcopy) hne

theorem Flowing.controlled (hK : ∀ {s}, K.head s → HeadFits s) (h : Flowing c) (ha : Act K c c') :
    Each Controlled c'.log := by
  have hplain : ∀ before (o : Out), o.Plain → Controlled before o := by
    intro before o ho
    cases o with
    | sent sg => exact fun hne => absurd ho hne
    | _ => trivial
  refine ha.each h.log hplain (fun hs => hs.each h.log hplain (fun bytes fin hp hcopy hne =>
    .inl (h.data hne hp hcopy)) fun bytes hh hcopy hne => ?_) fun _ _ => trivial
  rcases h.sound.tidy with hact | ⟨-, hnone⟩
  · have hfits := hK hh
    rw [HeadFits, h.wnd hact, ← Snd.length_copyOut hcopy] at hfits
    simpa [Pcb.segment, Serial.dist] using hfits
  · exact absurd (Snd.copyOut_nil (s := { c.pcb.snd with nxt := c.pcb.snd.una }) hnone hcopy) hne

theorem Flowing.act (hK : K.Tame) (hhead : ∀ {s}, K.head s → HeadFits s) (h : Flowing c)
    (ha : Act K c c') : Flowing c' := by
  refine ⟨h.sound.act hK ha, fun hact => ?_, h.controlled hhead ha⟩
  have hwnd := h.wnd (ha.active hact)
  cases ha with
  | send ha => rw [ha.wnd.1, ha.wnd.2, hwnd]
  | release | stillborn | abort => cases hact
  | accept listener seg | acceptLost listener seg =>
    simp [Cx.emit, Snd.advance, Pcb.accepting, Snd.ccInit, Snd.consumeMss_numbers]
  | cross seg | openActive seg =>
    simp [Pcb.crossing, Cx.openActive, Cx.establish, Snd.ccInit, Snd.consumeMss_numbers, hwnd]
  | heard | gave | fault | openPassive | connect | syn =>
    simp [hwnd, Cx.emit, Cx.openPassive, Cx.establish, Snd.advance, Snd.seeWindow, Pcb.opening]
  | _ => exact hwnd

/-- The segment that a step takes. -/
def Op.segment : Op → Option Segment
  | .rx seg => some seg
  | _ => none

/-- A sober step, and what is sent again from the head of the ring fits. -/
def Fits (s : Conn) (l : Op × Env) : Prop :=
  Sober s l ∧ ∀ seg ∈ l.1.segment, seg.flags.rst = false →
    let snd := s.pcb.snd.seeWindow seg.window
    (snd.isDupAck seg → ¬snd.inRecovery → (snd.dupacks + 1) % 2 ^ 32 = 3 → HeadFits snd) ∧
      (snd.isNewAck seg → snd.inRecovery → HeadFits (snd.acked seg.ack))

instance : DecidablePred HeadFits := fun _ => inferInstanceAs (Decidable (_ ∨ _))

instance (s : Conn) (l : Op × Env) : Decidable (Fits s l) := inferInstanceAs (Decidable (_ ∧ _))

/-- The acts of such steps. -/
def flowKit : Kit := { soberKit with head := HeadFits }

theorem flowKit_allows {l : Op × Env} (h : Fits s l) : flowKit.Allows l.2 (s.cx l.2.tx) l.1 := by
  obtain ⟨op, env⟩ := l
  cases op with
  | rx seg =>
    intro hr
    have hs := soberKit_allows h.1 hr
    obtain ⟨hdup, hpart⟩ := h.2 seg rfl hr
    exact ⟨fun hh => ⟨(hs.acks hh).new, fun hd hr h3 _ => hdup hd hr h3,
      fun hnew hr _ => hpart hnew hr⟩, hs.text, hs.shut, hs.syn, hs.done⟩
  | close => exact fun _ => trivial
  | accept => exact ⟨trivial, trivial⟩
  | _ => trivial

/-- **Flow control.** In every run of sober steps in which the head of the ring fits, with frames
that are sent or not as it may be: every text that was sent ends inside the window in the latest
segment of the peer or inside what was sent before. -/
theorem flow_control (hs : (tcpRuns Fits).Reachable s) : Each Controlled s.log :=
  (tcp_invariant (J := Flowing) (fun _ _ => flowKit)
    (fun _ tx h => ⟨h.sound.setTx tx, h.wnd, h.log⟩) (fun tx => ⟨.fresh tx, fun _ => rfl, .nil⟩)
    (fun h ha => h.act ⟨id, id⟩ id ha) flowKit_allows hs (Stream'.const .sent)).log

theorem flow_control_threeBytes : ∃ s : Conn, Each Controlled s.log ∧
    s.log.any (fun | .sent sg => sg.data == [1, 2, 3] | _ => false) := by
  obtain ⟨s, hs⟩ := Option.isSome_iff_exists.mp
    (by decide +kernel : (Conn.runs Fits threeBytes).isSome)
  refine ⟨s, flow_control (Conn.runs_reachable hs), ?_⟩
  have : (Conn.runs Fits threeBytes).all fun s => s.log.any fun
    | .sent sg => sg.data == [1, 2, 3]
    | _ => false := by decide +kernel
  rw [hs] at this
  exact this

/-- A peer with a window of one byte, three bytes for it, and three duplicate ACKs. -/
def narrow : List (Op × Env) :=
  let dup := ⟨1, 8, { ack := true }, [], 1, none, nil_fits, by decide⟩
  [(.accept 0 ⟨0, 0, { syn := true }, [], 1, none, nil_fits, by decide⟩ 7, .idle),
    (.rx dup, .idle), (.send [1, 2, 3], .idle), (.rx dup, .idle), (.rx dup, .idle), (.rx dup, .idle)]

theorem head_past_window : ∃ s, tcpSystem.Reachable s ∧ s.log.any fun
    | .sent sg => sg.data == [1, 2, 3] && sg.seq == sg.una && sg.wnd == 1 && sg.max == sg.una + 1
    | _ => false := by
  refine ⟨(narrow.foldlM Conn.step ⟨Pcb.fresh, []⟩).get (by decide +kernel),
    ⟨_, narrow, rfl, LTS.run_of_foldlM (Option.some_get _).symm⟩, ?_⟩
  decide +kernel

end Zuzu.L5
