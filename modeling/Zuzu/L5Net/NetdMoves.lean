import Zuzu.L5Net.NetdTies

/-!
# The calls of netd, move by move

Every call that reaches netd is a sequence of small moves on its tables: an entry point
runs on a block, a block is taken into use, a socket is made, bound, handed a
connection or freed. A move says which block and which socket it is about and why they are
the right ones. While a socket is being closed the tables are out of step with it, so
a state comes with the socket that is being closed, if any, and what it held at first.

**Results.** `step_moves`: every call is a sequence of moves.
-/
namespace Zuzu.L5
open Zuzu.Core Relation
variable {s : Socket} {id : Nat} {x : Closing}

/-- What a socket is, apart from its blocks. -/
structure SockFace where
  id : Nat
  session : Nat
  kind : SockKind
  port : Nat

def Socket.face (s : Socket) : SockFace := ⟨s.id, s.session, s.kind, s.port⟩

namespace Netd

/-- Every socket is still there, and nothing but its blocks has changed. -/
def SameSocks (n m : Netd) : Prop :=
  ∀ o, (m.socks o).map Socket.face = (n.socks o).map Socket.face

/-- The session that makes a call. -/
def Call.session : Call → Option Nat
  | .netif .. | .packet .. | .timer .. | .pump .. => none
  | .sockOpen k .. | .sockBind k .. | .sockConnect k .. | .sockListen k .. | .sockAccept k ..
  | .sockClose k .. | .closeAll k .. => some k

/-- A call of a session is about the sockets of that session. -/
def Call.Serves (l : Call) (s : Socket) : Prop := ∀ k, l.session = some k → s.session = k

/-- The sockets that a call closes. -/
def Call.Closes (n : Netd) (o : SockId) (s : Socket) : Call → Prop
  | .sockClose session id _ => n.socketFor id session = some o
  | .closeAll session _ => s.session = session
  | _ => False

/-- The socket that is being closed and what it held when the closing began. -/
abbrev Closing := Option (SockId × Socket)

/-- Why an entry point runs on a block, in a call `l` that came in the state `n₀`. -/
inductive Reason (l : Call) (n₀ n : Netd) : Closing → Nat → Op → Prop
  | packet (k : Packet) (isn : Seq) (i : Nat) :
      l = .packet k isn → n = n₀ → n.target k = some i → Reason l n₀ n none i (.rx k.seg)
  | timer (t : TimerKind) (i : Nat) :
      l = .timer i t → n = n₀ → (n.pcb i).active → t.op.enabled (n.pcb i) →
      Reason l n₀ n none i t.op
  | recv (o : SockId) (s : Socket) (i sz : Nat) :
      n.socks o = some s → s.pcb = some i → s.listener = false → l.Serves s →
      Reason l n₀ n none i (.recv (min sz 512))
  | send (x : Closing) (o : SockId) (s : Socket) (i : Nat) (data : List Byte) :
      n.socks o = some s → s.pcb = some i → s.listener = false → l.Serves s →
      (x = none ∨ x = some (o, s)) → Reason l n₀ n x i (.send (data.take 512))
  | close (o : SockId) (s : Socket) (i : Nat) :
      s.Ties i → n.ctx i = none → (n.pcb i).state ≠ .listening →
      Reason l n₀ n (some (o, s)) i .close
  | listener (o : SockId) (s : Socket) (i : Nat) :
      s.Ties i → n.ctx i = none → (n.pcb i).state = .listening →
      Reason l n₀ n (some (o, s)) i .drop
  | child (o : SockId) (s : Socket) (p i : Nat) :
      s.Ties p → (n.pcb p).state = .listening → n.isChild p i →
      Reason l n₀ n (some (o, s)) i .drop

/-- The block of a connect before its SYN is offered. -/
def dialled (n : Netd) (i remoteIp remotePort : Nat) : Netd :=
  { n with ports := n.ports.alloc.1 }.setSlot i ⟨⟨{ Pcb.fresh with
    remoteIp, remotePort, localIp := n.ip, localPort := n.ports.alloc.2 }, []⟩, none⟩

/-- A listener. -/
def listens (n : Netd) (o : SockId) (i port : Nat) (backlog : Int) : Netd :=
  (n.setSlot i ⟨⟨{ Pcb.fresh with
      localIp := n.ip
      localPort := port
      state := .listening
      backlog := if backlog > 0 then backlog.toNat else tcpListenBacklog
      cb := true }, []⟩, some o⟩).modSock o fun s => { s with pcb := some i, listener := true }

/-- The block of a listener's new connection before the SYN-ACK is offered. -/
def answered (n : Netd) (p i : Nat) (k : Packet) : Netd :=
  n.setSlot i ⟨⟨{ Pcb.fresh with
    localIp := n.ip
    localPort := (n.pcb p).localPort
    remoteIp := k.srcIp
    remotePort := k.srcPort }, []⟩, none⟩

/-- A socket with a new connection. -/
def connected (n : Netd) (o : SockId) (i : Nat) : Netd :=
  (n.tcpSetCtx i (some o)).modSock o fun s => { s with pcb := some i }

/-- A new socket. -/
def opened (n : Netd) (session : Nat) (kind : SockKind) : Netd :=
  (n.socketOpen session (some kind) none).1

/-- The connection at the head of a queue is handed over. -/
def handed (n : Netd) (p ns : SockId) (i : Nat) : Netd :=
  ((n.modSock p fun s => { s with acceptQ := s.acceptQ.tail }).modSock ns fun s =>
    { s with pcb := some i }).tcpSetCtx i (some ns)

/-- A socket with a port. -/
def taken (n : Netd) (o : SockId) (ports : Ports) (port : Nat) : Netd :=
  { n with ports, udp := n.udp ++ [port] }.modSock o fun s => { s with port }

/-- A socket is freed. -/
def freed (n : Netd) (o : SockId) (port : Nat) : Netd :=
  (if port ≠ 0 then { n.udpUnbind port with ports := n.ports.release port } else n).setSock o none

theorem slots_freed (n : Netd) (o : SockId) (port : Nat) : (n.freed o port).slots = n.slots := by
  unfold freed
  split <;> rfl

theorem socks_freed (n : Netd) (o : SockId) (port : Nat) :
    (n.freed o port).socks = Function.update n.socks o none := by
  unfold freed
  split <;> rfl

/-- A small step of the tables, in a call `l` that came in the state `n₀`. -/
inductive Move (l : Call) (n₀ n : Netd) : Closing → Netd → Closing → Prop
  | netif (ip : Nat) (bound : Bool) : l.session = none → Move l n₀ n none { n with ip, bound } none
  | exec {x : Closing} {i : Nat} {op : Op} : Reason l n₀ n x i op → Move l n₀ n x (n.exec i op) x
  | answer (k : Packet) (isn : Seq) (p i : Nat) :
      l = .packet k isn → n₀.target k = some p → (n₀.pcb p).state = .listening →
      k.seg.flags.rst = false → n = n₀.exec p (.rx k.seg) → n.tcpPcbAlloc = some i →
      Move l n₀ n none ((n.answered p i k).exec i (.accept p k.seg isn)) none
  | refuse (i ip port : Nat) :
      n.tcpPcbAlloc = some i → n.ports.alloc.2 = 0 →
      Move l n₀ n none ((n.dialled i ip port).exec i .drop) none
  | dialFailed (i ip port : Nat) (isn : Seq) :
      n.tcpPcbAlloc = some i → n.ports.alloc.2 ≠ 0 →
      ¬(((n.dialled i ip port).exec i (.connect isn)).pcb i).active →
      Move l n₀ n none ((n.dialled i ip port).exec i (.connect isn)) none
  | dial (o : SockId) (s : Socket) (i ip port : Nat) (isn : Seq) :
      n.tcpPcbAlloc = some i → n.ports.alloc.2 ≠ 0 → n.socks o = some s → s.pcb = none →
      s.listener = false → l.Serves s →
      (((n.dialled i ip port).exec i (.connect isn)).pcb i).active →
      Move l n₀ n none (((n.dialled i ip port).exec i (.connect isn)).connected o i) none
  | listen (session id : Nat) (o : SockId) (s : Socket) (i port : Nat) (backlog : Int) :
      l = .sockListen session id port backlog → n = n₀ → n.tcpPcbAlloc = some i →
      n.socks o = some s → s.pcb = none → s.listener = false → l.Serves s → port ≠ 0 →
      n.tcpPcbFindListener n.ip port = none → Move l n₀ n none (n.listens o i port backlog) none
  | sockOpen (session : Nat) (kind : SockKind) :
      l.session = some session → Move l n₀ n none (n.opened session kind) none
  | bindFailed (ports : Ports) :
      (n.ports.InRange → ports.InRange ∧
        ∀ x, x ≠ 0 → ports.held.count x = n.ports.held.count x) →
      Move l n₀ n none { n with ports } none
  | bind (session id : Nat) (o : SockId) (s : Socket) (ports : Ports) (req port : Nat) :
      l = .sockBind session id req → n = n₀ → n.socks o = some s → s.port = 0 → l.Serves s →
      port ≠ 0 →
      (req = 0 ∧ (ports, port) = n.ports.alloc ∨ req = port ∧ n.ports.reserve port = some ports) →
      Move l n₀ n none (n.taken o ports port) none
  | accept (session id : Nat) (mem : Option SockErr) (sizes : List Nat) (p ns : SockId)
      (s : Socket) (i : Nat) (q : List Nat) :
      l = .sockAccept session id mem sizes → n = n₀ → n.socks p = some s → s.listener →
      l.Serves s → s.acceptQ = i :: q →
      (n.opened session .tcp).socketFor n.newId session = some ns →
      Move l n₀ n none ((n.opened session .tcp).handed p ns i) none
  | begin (o : SockId) (s : Socket) :
      l.Closes n₀ o s → l.Serves s → n.socks o = some s → Move l n₀ n none n (some (o, s))
  | letgo (o : SockId) (s : Socket) (i : Nat) :
      s.Ties i → Move l n₀ n (some (o, s)) (n.tcpSetCtx i none) (some (o, s))
  | free (o : SockId) (s : Socket) : Move l n₀ n (some (o, s)) (n.freed o s.port) none

/-- A sequence of moves. -/
abbrev Moves (l : Call) (n₀ : Netd) : Netd × Closing → Netd × Closing → Prop :=
  ReflTransGen fun a b => Move l n₀ a.1 a.2 b.1 b.2

/-- What every move keeps is kept by a sequence of moves. -/
theorem Moves.keeps {l : Call} {n₀ : Netd} {I : Netd → Closing → Prop}
    (hI : ∀ {n x m y}, I n x → Move l n₀ n x m y → I m y) {a b : Netd × Closing}
    (h : Moves l n₀ a b) (ha : I a.1 a.2) : I b.1 b.2 := by
  induction h with
  | refl => exact ha
  | tail _ hm ih => exact hI ih hm

variable {n m : Netd} {i j : Nat} {o : SockId} {op : Op}

/-! ## What the walk needs to know -/

/-- The sockets hear of a call only when a connection opens, or when a block that calls back
goes away. -/
theorem exec_socks_same (ho : n.opensBy i op = false)
    (hc : ∀ o, (n.pcb i).active → ¬(n.after i op).active → (n.pcb i).cb → n.ctx i ≠ some o) :
    (n.exec i op).socks = n.socks := by
  have hmove := exec_socks n i op
  generalize (n.exec i op).socks = socks at hmove ⊢
  cases hmove with
  | same => rfl
  | opened _ h =>
    rw [ho] at h
    cases h
  | closed o h1 h2 h3 h4 => exact absurd h4 (hc o h1 h2 h3)

theorem exec_send_socks (n : Netd) (i : Nat) (data : List Byte) :
    (n.exec i (.send data)).socks = n.socks :=
  exec_socks_same rfl fun _ h h' =>
    absurd ((send_active (n.envFor i) (n.cx i) data).symm ▸ h) h'

theorem exec_recv_socks (n : Netd) (i sz : Nat) : (n.exec i (.recv sz)).socks = n.socks :=
  exec_socks_same rfl fun _ h h' => absurd ((recv_active (n.envFor i) (n.cx i) sz).symm ▸ h) h'

theorem socketFor_spec {session : Nat} (h : n.socketFor id session = some o) :
    ∃ s, n.socks o = some s ∧ s.id = id ∧ s.session = session ∧ o < n.made := by
  have hmem := List.mem_of_find?_eq_some h
  have hp := List.find?_some h
  split at hp
  · rename_i s hs
    obtain ⟨h1, h2⟩ := of_decide_eq_true hp
    exact ⟨s, hs, h1, h2, List.mem_range.mp hmem⟩
  · cases hp

theorem SameSocks.modSock (n : Netd) (o : SockId) {f : Socket → Socket}
    (hf : ∀ s, (f s).face = s.face) : SameSocks n (n.modSock o f) := by
  intro o'
  by_cases hoo : o' = o
  · subst hoo
    rw [socks_modSock_self, Option.map_map]
    exact congrArg (Option.map · _) (funext hf)
  · rw [socks_modSock_ne n f hoo]

theorem SameSocks.was (h : SameSocks n m) {s' : Socket} (hs : m.socks o = some s') :
    ∃ s, n.socks o = some s ∧ s'.face = s.face := by
  have ho := h o
  rw [hs, Option.map_some] at ho
  obtain ⟨s, hs, he⟩ := Option.map_eq_some_iff.mp ho.symm
  exact ⟨s, hs, he.symm⟩

theorem SameSocks.handed (n : Netd) (p ns : SockId) (i : Nat) :
    SameSocks n (n.handed p ns i) := by
  have h1 : SameSocks n (n.modSock p fun s => { s with acceptQ := s.acceptQ.tail }) :=
    .modSock n p fun _ => rfl
  have h2 := SameSocks.modSock (n.modSock p fun s => { s with acceptQ := s.acceptQ.tail }) ns
    (f := fun s => { s with pcb := some i }) fun _ => rfl
  exact fun o => (h2 o).trans (h1 o)

/-! ## Loops -/

section Walk
variable {l : Call} {n₀ : Netd}

theorem exec_moves (h : Reason l n₀ n x i op) :
    Moves l n₀ (n, x) (n.exec i op, x) := .single (.exec h)

/-- A loop over a list is a sequence of moves if its rounds are, as long as `I` holds. -/
theorem foldl_moves {α : Type} {I : Netd → Prop} {f : Netd → α → Netd}
    {as : List α} (hf : ∀ n, ∀ a ∈ as, I n → Moves l n₀ (n, x) (f n a, x) ∧ I (f n a))
    (hn : I n) : Moves l n₀ (n, x) (as.foldl f n, x) ∧ I (as.foldl f n) := by
  induction as generalizing n with
  | nil => exact ⟨.refl, hn⟩
  | cons a as ih =>
    obtain ⟨hm, hi⟩ := hf n a List.mem_cons_self hn
    obtain ⟨hms, his⟩ := ih (fun n b hb => hf n b (List.mem_cons_of_mem a hb)) hi
    exact ⟨hm.trans hms, his⟩

theorem socketTcpRx_moves (hs : n.socks o = some s) (hl : l.Serves s)
    (sizes : List Nat) : Moves l n₀ (n, none) (n.socketTcpRx s sizes, none) ∧
      (n.socketTcpRx s sizes).socks o = some s := by
  unfold socketTcpRx
  split
  · rename_i i hp hlis
    refine foldl_moves (I := fun n => n.socks o = some s) (fun m sz _ hm => ⟨?_, ?_⟩) hs
    · exact exec_moves (.recv o s i sz hm hp hlis hl)
    · rw [exec_recv_socks]
      exact hm
  · exact ⟨.refl, hs⟩

theorem socketTcpTx_moves (hs : n.socks o = some s) (hl : l.Serves s)
    (hx : x = none ∨ x = some (o, s)) (chunks : List (List Byte)) :
    Moves l n₀ (n, x) (n.socketTcpTx s chunks, x) := by
  unfold socketTcpTx
  split
  · rename_i i hp hlis
    refine (foldl_moves (I := fun n => n.socks o = some s) (fun m data _ hm => ⟨?_, ?_⟩) hs).1
    · exact exec_moves (.send x o s i data hm hp hlis hl hx)
    · rw [exec_send_socks]
      exact hm
  · exact .refl

/-- Closing a block that the socket has let go. -/
theorem tcpClose_moves (hi : s.Ties i) (hctx : n.ctx i = none) :
    Moves l n₀ (n, some (o, s)) (n.tcpClose i, some (o, s)) := by
  unfold tcpClose
  split
  · rename_i hlis
    -- a half-open block is not the listening one, which stays as it is
    have hloop : Moves l n₀ (n, some (o, s))
        (slotList.foldl (fun m j => if m.isChild i j then m.exec j .drop else m) n, some (o, s)) ∧ _ :=
      foldl_moves
      (I := fun m => (m.pcb i).state = .listening ∧ m.ctx i = none)
      (f := fun m j => if m.isChild i j then m.exec j .drop else m) (n := n)
      (fun m j _ hm => by
        split
        · rename_i hc
          have hji : i ≠ j := by
            rintro rfl
            have hst := (of_decide_eq_true hc).2.1
            rw [hm.1] at hst
            cases hst
          refine ⟨exec_moves (.child o s i j hi hm.1 hc), ?_, ?_⟩
          · rw [exec_pcb_ne m _ hji]
            exact hm.1
          · rw [exec_ctx_ne m _ hji]
            exact hm.2
        · exact ⟨.refl, hm⟩) ⟨hlis, hctx⟩
    obtain ⟨hms, hl, hc⟩ := hloop
    exact hms.trans (exec_moves (.listener o s i hi hc hl))
  · rename_i hlis
    exact exec_moves (.close o s i hi hctx hlis)

/-- Letting a block go and closing it. -/
theorem letgo_moves (hi : s.Ties i) :
    Moves l n₀ (n, some (o, s)) ((n.tcpSetCtx i none).tcpClose i, some (o, s)) :=
  .head (.letgo o s i hi) (tcpClose_moves hi (ctx_tcpSetCtx_self ..))

theorem socketClose_moves (hc : l.Closes n₀ o s) (hl : l.Serves s)
    (hs : n.socks o = some s) (chunks : List (List Byte)) :
    Moves l n₀ (n, none) (n.socketClose o s chunks, none) := by
  have hqueue : ∀ m, Moves l n₀ (m, some (o, s)) (m.closeQueue s.acceptQ, some (o, s)) :=
    fun m => (foldl_moves (I := fun _ => True)
      (fun m i hi _ => ⟨letgo_moves (.inl hi), trivial⟩) trivial).1
  have hpcb : ∀ m, Moves l n₀ (m, some (o, s)) (m.closePcb s.pcb, some (o, s)) := fun m => by
    unfold closePcb
    split
    · exact letgo_moves (.inr ‹_›)
    · exact .refl
  have hfirst : Moves l n₀ (n, some (o, s)) (if s.kind = .tcp then
      if s.listener then n.closeQueue s.acceptQ else n.socketTcpTx s chunks else n,
      some (o, s)) := by
    split
    · split
      · exact hqueue n
      · exact socketTcpTx_moves hs hl (.inr rfl) chunks
    · exact .refl
  have hsecond : ∀ m, Moves l n₀ (m, some (o, s))
      (if s.kind = .tcp then m.closePcb s.pcb else m, some (o, s)) := fun m => by
    split
    · exact hpcb m
    · exact .refl
  refine .head (.begin o s hc hl hs) ((hfirst.trans (hsecond _)).tail ?_)
  exact .free o s

/-! ## Calls -/

theorem tcpDispatch_moves {k : Packet} {isn : Seq} (hl : l = .packet k isn) (hn : n = n₀) :
    Moves l n₀ (n, none) (n.tcpDispatch k isn, none) := by
  unfold tcpDispatch
  split
  · exact .refl
  rename_i i ht
  have hrx : Moves l n₀ (n, none) (n.exec i (.rx k.seg), none) :=
    exec_moves (.packet k isn i hl hn ht)
  dsimp only
  split
  · rename_i hlis
    refine hrx.trans ?_
    unfold onListening
    split
    · exact .refl
    split
    · exact .refl
    split
    · exact .refl
    · rename_i j hj
      exact .single (.answer k isn i j hl (hn ▸ ht) (hn ▸ hlis.1) (Bool.eq_false_iff.mpr hlis.2)
        (by rw [hn]) hj)
  · exact hrx

/-- The ways a connect can go. -/
theorem tcpConnect_cases (n : Netd) (o : SockId) (ip port : Nat) (isn : Seq) :
    (∃ e, n.tcpConnect o ip port isn = (n, .error e)) ∨
    ∃ i, n.tcpPcbAlloc = some i ∧
      (n.ports.alloc.2 = 0 ∧
          n.tcpConnect o ip port isn = ((n.dialled i ip port).exec i .drop, .error .noMem) ∨
        n.ports.alloc.2 ≠ 0 ∧
          (¬(((n.dialled i ip port).exec i (.connect isn)).pcb i).active ∧
            n.tcpConnect o ip port isn =
              ((n.dialled i ip port).exec i (.connect isn), .error .io) ∨
          (((n.dialled i ip port).exec i (.connect isn)).pcb i).active ∧
            n.tcpConnect o ip port isn =
              (((n.dialled i ip port).exec i (.connect isn)).tcpSetCtx i (some o), .ok i))) := by
  unfold tcpConnect
  split
  · exact .inl ⟨_, rfl⟩
  split
  · exact .inl ⟨_, rfl⟩
  rename_i i hi
  refine .inr ⟨i, hi, ?_⟩
  dsimp only
  split
  · exact .inl ⟨‹_›, rfl⟩
  refine .inr ⟨‹_›, ?_⟩
  split
  · exact .inr ⟨‹_›, rfl⟩
  · exact .inl ⟨‹_›, rfl⟩

theorem socketConnect_moves (hs : n.socks o = some s) (hl : l.Serves s)
    (ip port : Nat) (isn : Seq) :
    Moves l n₀ (n, none) ((n.socketConnect o s ip port isn).1, none) := by
  unfold socketConnect
  split
  · exact .refl
  split
  · exact .refl
  rename_i hfree
  rw [not_or, not_not] at hfree
  obtain ⟨e, he⟩ | ⟨i, hi, ⟨h0, he⟩ | ⟨h0, ⟨hact, he⟩ | ⟨hact, he⟩⟩⟩ :=
    tcpConnect_cases n o ip port isn
  · rw [he]
  · rw [he]
    exact .single (.refuse i ip port hi h0)
  · rw [he]
    exact .single (.dialFailed i ip port isn hi h0 hact)
  · rw [he]
    exact .single (.dial o s i ip port isn hi h0 hs hfree.1 (Bool.eq_false_iff.mpr hfree.2) hl hact)

theorem socketAccept_moves {session : Nat} {mem : Option SockErr}
    {sizes : List Nat} (hl : l = .sockAccept session id mem sizes) (hn : n = n₀)
    (hs : n.socks o = some s) (hserve : l.Serves s) :
    Moves l n₀ (n, none) ((n.socketAccept o s session mem sizes).1, none) := by
  unfold socketAccept
  split
  · exact .refl
  rename_i hlis
  rw [not_not] at hlis
  split
  · exact .refl
  rename_i i q hq
  cases mem with
  | some e => exact .refl
  | none =>
    have hfor : ∀ {ns}, (n.opened session .tcp).socketFor n.newId session = some ns →
        Moves l n₀ (n, none) ((n.opened session .tcp).takeOver o ns i sizes, none) := by
      intro ns hns
      have hmove := Move.accept session id none sizes o ns s i q hl hn hs hlis hserve hq hns
      refine .head (b := ((n.opened session .tcp).handed o ns i, none)) hmove ?_
      unfold takeOver
      dsimp only
      split
      · rename_i s' hs'
        refine (socketTcpRx_moves hs' ?_ sizes).1
        obtain ⟨s₁, hs₁, -, hk, -⟩ := socketFor_spec hns
        intro k hk'
        rw [hl] at hk'
        cases hk'
        obtain ⟨s₂, hs₂, he⟩ := (SameSocks.handed _ o ns i).was hs'
        rw [hs₁] at hs₂
        cases hs₂
        exact (congrArg SockFace.session he).trans hk
      · exact .refl
    have hopen : n.socketOpen session (some .tcp) none = (n.opened session .tcp, .ok n.newId) := rfl
    rw [hopen]
    dsimp only
    split
    · exact hfor ‹_›
    · exact .single (.sockOpen session .tcp (by rw [hl]; rfl))

theorem socketListen_moves {session port : Nat} {backlog : Int}
    (hl : l = .sockListen session id port backlog) (hn : n = n₀) (hs : n.socks o = some s)
    (hserve : l.Serves s) :
    Moves l n₀ (n, none) ((n.socketListen o s port backlog).1, none) := by
  unfold socketListen
  split
  · exact .refl
  split
  · exact .refl
  rename_i hfree
  rw [not_or, not_not] at hfree
  split
  · exact .refl
  rename_i h0
  split
  · exact .refl
  rename_i hnone
  rw [not_not] at hnone
  cases hi : n.tcpPcbAlloc with
  | none =>
    unfold tcpListen
    rw [hi]
  | some i =>
    have hmove := Move.listen session id o s i port backlog hl hn hi hs hfree.1
      (Bool.eq_false_iff.mpr hfree.2) hserve h0 hnone
    unfold tcpListen
    rw [hi]
    exact .single hmove

/-- The port is there; the table of receivers may refuse it. -/
theorem udpBind_cases (n : Netd) (port : Nat) :
    (∃ e, n.udpBind port = (n, some e)) ∨
      n.udpBind port = ({ n with udp := n.udp ++ [port] }, none) := by
  unfold udpBind
  split
  · exact .inl ⟨_, rfl⟩
  split
  · exact .inl ⟨_, rfl⟩
  split
  · exact .inl ⟨_, rfl⟩
  · exact .inr rfl

/-- The end of `SocketBind`. -/
def bindEnd (o : SockId) (port : Nat) : Netd × Option SockErr → Netd × Option SockErr
  | (n, some e) => ({ n with ports := n.ports.release port }, some e)
  | (n, none) => (n.modSock o fun s => { s with port }, none)

theorem socketBind_moves {session req : Nat} (hl : l = .sockBind session id req)
    (hn : n = n₀) (hs : n.socks o = some s) (hserve : l.Serves s) :
    Moves l n₀ (n, none) ((n.socketBind o s req).1, none) := by
  have hgot : ∀ (ports : Ports) (port : Nat), s.port = 0 →
      (req = 0 ∧ (ports, port) = n.ports.alloc ∧ port ≠ 0 ∨
        req = port ∧ n.ports.reserve port = some ports) →
      Moves l n₀ (n, none) ((bindEnd o port ({ n with ports }.udpBind port)).1, none) := by
    intro ports port h0 hport
    have htakes : n.ports.InRange → n.ports.Takes ports port := fun hr => by
      rcases hport with ⟨-, he, hne⟩ | ⟨-, he⟩
      · obtain ⟨rfl, rfl⟩ := Prod.mk.inj he
        exact Ports.alloc_takes hne hr
      · exact Ports.reserve_takes he hr
    obtain ⟨e, he⟩ | he := udpBind_cases { n with ports } port
    · rw [he]
      exact .single (.bindFailed (ports.release port) fun hr => (htakes hr).release)
    · rw [he]
      refine .single (.bind session id o s ports req port hl hn hs h0 hserve ?_ ?_)
      · rcases hport with ⟨-, -, hne⟩ | ⟨-, he⟩
        · exact hne
        · exact (Ports.reserve_fresh he).1
      · rcases hport with ⟨hr, he, -⟩ | hr
        · exact .inl ⟨hr, he⟩
        · exact .inr hr
  unfold socketBind
  split
  · exact .refl
  rename_i h0
  rw [not_not] at h0
  split
  · exact .refl
  by_cases hreq : req = 0
  · rw [if_pos hreq, if_pos hreq]
    by_cases halloc : n.ports.alloc.2 = 0
    · rw [if_pos halloc]
      refine .single (.bindFailed n.ports.alloc.1 fun hr => ?_)
      obtain ⟨hr', ⟨-, hh⟩ | ⟨h1, -⟩⟩ := Ports.alloc_cases hr
      · exact ⟨hr', fun x _ => by rw [hh]⟩
      · rw [halloc] at h1
        cases h1
    · rw [if_neg halloc]
      exact hgot _ _ h0 (.inl ⟨hreq, rfl, halloc⟩)
  · rw [if_neg hreq, if_neg hreq]
    cases hres : n.ports.reserve req with
    | none => exact .refl
    | some ports => exact hgot ports req h0 (.inr ⟨rfl, hres⟩)

/-- **A call is a sequence of moves.** -/
theorem step_moves (n : Netd) (l : Call) : Moves l n (n, none) (n.step l, none) := by
  have hwith : ∀ {session id : Nat} {f : SockId → Socket → Netd}, l.session = some session →
      (∀ o s, n.socketFor id session = some o → n.socks o = some s → l.Serves s →
        Moves l n (n, none) (f o s, none)) →
      Moves l n (n, none) (n.withSock session id f, none) := by
    intro session id f hses hf
    unfold withSock
    split
    · rename_i o ho
      obtain ⟨s, hs, -, hk, -⟩ := socketFor_spec ho
      rw [hs]
      refine hf o s ho hs fun k hk' => ?_
      rw [hses] at hk'
      cases hk'
      exact hk
    · exact .refl
  cases l with
  | netif ip bound => exact .single (.netif ip bound rfl)
  | packet k isn => exact tcpDispatch_moves rfl rfl
  | timer i t =>
    simp only [step]
    split
    · exact exec_moves (.timer t i rfl rfl (‹_ ∧ _›).1 (‹_ ∧ _›).2)
    · exact .refl
  | sockOpen session kind mem =>
    cases kind with
    | none => exact .refl
    | some kind =>
      cases mem with
      | some e => exact .refl
      | none => exact .single (.sockOpen session kind rfl)
  | sockBind session id port => exact hwith rfl fun o s _ hs hl => socketBind_moves rfl rfl hs hl
  | sockConnect session id ip port isn =>
    exact hwith rfl fun o s _ hs hl => socketConnect_moves hs hl ip port isn
  | sockListen session id port backlog =>
    exact hwith rfl fun o s _ hs hl => socketListen_moves rfl rfl hs hl
  | sockAccept session id mem sizes =>
    exact hwith rfl fun o s _ hs hl => socketAccept_moves rfl rfl hs hl
  | sockClose session id chunks =>
    exact hwith rfl fun o s ho hs hl =>
      socketClose_moves (show Call.Closes n o s (.sockClose session id chunks) from ho) hl hs chunks
  | closeAll session chunks =>
    refine (foldl_moves (I := fun _ => True) (fun m o _ _ => ⟨?_, trivial⟩) trivial).1
    split
    · rename_i s hs
      split
      · rename_i hk
        exact socketClose_moves (show Call.Closes n o s (.closeAll session chunks) from hk)
          (fun k hk' => by cases hk'; exact hk) hs (chunks o)
      · exact .refl
    · exact .refl
  | pump o sizes chunks =>
    simp only [step]
    split
    · rename_i s hs
      split
      · have hl : Call.Serves (.pump o sizes chunks) s := fun k hk => by cases hk
        have hrx : Moves (.pump o sizes chunks) n (n, none) (n.socketTcpRx s sizes, none) ∧ _ :=
          socketTcpRx_moves hs hl sizes
        obtain ⟨hrx, hs'⟩ := hrx
        exact hrx.trans (socketTcpTx_moves hs' hl (.inl rfl) chunks)
      · exact .refl
    · exact .refl

end Walk

end Netd
end Zuzu.L5
