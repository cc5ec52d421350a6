import Zuzu.L5Net.Netd
import Zuzu.L5Net.TcpFrame

/-!
# What the operations on the tables of netd do

`Netd.exec` changes one block, and the socket that its callbacks find. `exec_socks` says
which of the three things that can be: nothing, a new entry of an accept queue, or the
end of a connection. The invariants of the tables are proved from these facts only.
-/
namespace Zuzu.L5
open Zuzu.Core

namespace Netd

variable {n : Netd} {i j : Nat} {o : SockId} {op : Op}

/-! ## Slots -/

theorem pcb_congr {m : Netd} (h : m.slots i = n.slots i) : m.pcb i = n.pcb i :=
  congrArg (fun s => s.conn.pcb) h

theorem ctx_congr {m : Netd} (h : m.slots i = n.slots i) : m.ctx i = n.ctx i := congrArg Slot.ctx h

section
variable (n : Netd)

@[simp] theorem pcb_setSlot_self (i : Nat) (s : Slot) :
    (n.setSlot i s).pcb i = s.conn.pcb := by simp [setSlot, pcb]

theorem slots_setSlot_ne (s : Slot) (h : j ≠ i) : (n.setSlot i s).slots j = n.slots j :=
  Function.update_of_ne h ..

@[simp] theorem ctx_setSlot_self (i : Nat) (s : Slot) :
    (n.setSlot i s).ctx i = s.ctx := by simp [setSlot, ctx]

@[simp] theorem pcb_tcpSetCtx (i : Nat) (x : Option SockId) (j : Nat) :
    (n.tcpSetCtx i x).pcb j = n.pcb j := by
  by_cases h : j = i
  · subst h
    exact pcb_setSlot_self n j _
  · exact pcb_congr (slots_setSlot_ne n _ h)

theorem slots_tcpSetCtx_ne (x : Option SockId) (h : j ≠ i) :
    (n.tcpSetCtx i x).slots j = n.slots j := slots_setSlot_ne n _ h

@[simp] theorem ctx_tcpSetCtx_self (i : Nat) (x : Option SockId) :
    (n.tcpSetCtx i x).ctx i = x := by simp [tcpSetCtx]

@[simp] theorem socks_tcpSetCtx (i : Nat) (x : Option SockId) :
    (n.tcpSetCtx i x).socks = n.socks := rfl

/-! ## Sockets -/

@[simp] theorem slots_modSock (o : SockId) (f : Socket → Socket) :
    (n.modSock o f).slots = n.slots := rfl

theorem socks_modSock_self (o : SockId) (f : Socket → Socket) :
    (n.modSock o f).socks o = (n.socks o).map f := by simp [modSock, setSock]

theorem socks_modSock_ne (f : Socket → Socket) {o' : SockId} (h : o' ≠ o) :
    (n.modSock o f).socks o' = n.socks o' := Function.update_of_ne h ..

@[simp] theorem slots_sockOnEstablished (i : Nat) : (n.sockOnEstablished i).slots = n.slots := by
  unfold sockOnEstablished
  split <;> rfl

@[simp] theorem slots_sockOnClosed (i : Nat) : (n.sockOnClosed i).slots = n.slots := by
  unfold sockOnClosed
  split <;> rfl

end

/-! ## An entry point -/

/-- What the callbacks leave alone. -/
structure Rest (n m : Netd) : Prop where
  ip : m.ip = n.ip
  bound : m.bound = n.bound
  made : m.made = n.made
  nextId : m.nextId = n.nextId
  udp : m.udp = n.udp

theorem Rest.trans {m k : Netd} (h : Rest n m) (h' : Rest m k) : Rest n k :=
  ⟨h'.ip.trans h.ip, h'.bound.trans h.bound, h'.made.trans h.made, h'.nextId.trans h.nextId,
    h'.udp.trans h.udp⟩

/-- The block while an entry point works on it. -/
def cx (n : Netd) (i : Nat) : Cx := ⟨n.pcb i, (n.slots i).conn.log, (n.envFor i).tx⟩

/-- The block after an entry point. -/
def after (n : Netd) (i : Nat) (op : Op) : Pcb := (op.exec (n.envFor i) (n.cx i)).pcb

section
variable (n : Netd) (i : Nat)

@[simp] theorem work_pcb (op : Op) : (n.work i op).pcb i = n.after i op := by
  simp [work, after, cx, pcb, setSlot]

@[simp] theorem notified_slots (op : Op) : (n.notified i op).slots = (n.work i op).slots := by
  unfold notified
  dsimp only
  split
  · exact slots_sockOnEstablished ..
  · rfl

@[simp] theorem notified_pcb (op : Op) :
    (n.notified i op).pcb i = n.after i op := by rw [pcb, notified_slots, ← work_pcb, pcb]

theorem notified_rest (op : Op) : Rest n (n.notified i op) ∧ (n.notified i op).ports = n.ports := by
  unfold notified sockOnEstablished
  dsimp only
  split
  · split <;> exact ⟨⟨rfl, rfl, rfl, rfl, rfl⟩, rfl⟩
  · exact ⟨⟨rfl, rfl, rfl, rfl, rfl⟩, rfl⟩

theorem released_rest (cb : Bool) (port : Nat) :
    Rest n (n.released i cb port) ∧ (n.released i cb port).ports = n.ports.release port := by
  unfold released sockOnClosed
  cases cb with
  | false => exact ⟨⟨rfl, rfl, rfl, rfl, rfl⟩, rfl⟩
  | true => cases n.ctx i <;> exact ⟨⟨rfl, rfl, rfl, rfl, rfl⟩, rfl⟩

@[simp] theorem slots_released (cb : Bool) (port : Nat) :
    (n.released i cb port).slots = n.slots := by
  unfold released
  cases cb
  · rfl
  · exact slots_sockOnClosed n i

theorem exec_slots (op : Op) : (n.exec i op).slots = (n.work i op).slots := by
  unfold exec
  dsimp only
  split <;> simp

theorem exec_rest (op : Op) : Rest n (n.exec i op) := by
  have hn := (notified_rest n i op).1
  unfold exec
  dsimp only
  split
  · exact hn.trans (released_rest ..).1
  · exact hn

@[simp] theorem exec_pcb_self (op : Op) : (n.exec i op).pcb i = n.after i op := by
  rw [pcb, exec_slots]
  simp [work, setSlot, after, cx, pcb]

@[simp] theorem exec_ctx_self (op : Op) :
    (n.exec i op).ctx i = if n.opensBy i op then n.openCtx i else n.ctx i := by
  rw [ctx, exec_slots]
  simp [work, setSlot]

end

theorem exec_slots_ne (n : Netd) (op : Op) (h : j ≠ i) : (n.exec i op).slots j = n.slots j := by
  rw [exec_slots]
  exact Function.update_of_ne h ..

theorem exec_pcb_ne (n : Netd) (op : Op) (h : j ≠ i) : (n.exec i op).pcb j = n.pcb j :=
  pcb_congr (exec_slots_ne n op h)

theorem exec_ctx_ne (n : Netd) (op : Op) (h : j ≠ i) : (n.exec i op).ctx j = n.ctx j :=
  ctx_congr (exec_slots_ne n op h)

/-- What an entry point on block `i` can do to the sockets. -/
inductive SockMove (n : Netd) (i : Nat) (op : Op) : (SockId → Option Socket) → Prop
  | same : ((n.pcb i).active → (n.pcb i).cb → n.ctx i ≠ none → (n.after i op).active) →
      SockMove n i op n.socks
  | opened (o : SockId) : n.opensBy i op → (n.after i op).cb → n.openCtx i = some o →
      SockMove n i op (n.modSock o (·.enqueue i)).socks
  | closed (o : SockId) : (n.pcb i).active → ¬(n.after i op).active → (n.pcb i).cb →
      n.ctx i = some o → SockMove n i op (n.modSock o (·.forget i)).socks

theorem opensBy_active (h : n.opensBy i op) : (n.after i op).active = (n.pcb i).active := by
  cases op with
  | rx seg => exact (dispatch_opens (c := n.cx i) h).1
  | _ => cases h

theorem socks_sockOnEstablished (n : Netd) (i : Nat) :
    (n.sockOnEstablished i).socks = match n.ctx i with
      | none => n.socks
      | some o => (n.modSock o (·.enqueue i)).socks := by
  unfold sockOnEstablished
  cases n.ctx i <;> rfl

theorem socks_sockOnClosed (n : Netd) (i : Nat) :
    (n.sockOnClosed i).socks = match n.ctx i with
      | none => n.socks
      | some o => (n.modSock o (·.forget i)).socks := by
  unfold sockOnClosed
  cases n.ctx i <;> rfl

theorem exec_socks (n : Netd) (i : Nat) (op : Op) : SockMove n i op (n.exec i op).socks := by
  have hctx : (n.work i op).ctx i = if n.opensBy i op then n.openCtx i else n.ctx i := by
    simp [work, setSlot, ctx]
  unfold exec
  dsimp only
  rw [notified_pcb]
  by_cases ho : n.opensBy i op
  · -- the block is not released
    rw [if_pos ho] at hctx
    rw [if_neg fun h => h.2 (opensBy_active ho ▸ h.1)]
    have hsame : SockMove n i op n.socks := .same fun ha _ _ => opensBy_active ho ▸ ha
    unfold notified
    dsimp only
    rw [work_pcb]
    split
    · rename_i h
      rw [socks_sockOnEstablished, hctx]
      split
      · exact hsame
      · rename_i o hx
        exact .opened o ho h.2 hx
    · exact hsame
  · rw [if_neg ho] at hctx
    have hnot : n.notified i op = n.work i op := if_neg fun h => ho h.1
    rw [hnot]
    split
    · rename_i h
      unfold released
      split
      · rename_i hcb
        rw [socks_sockOnClosed, hctx]
        split
        · rename_i hx
          exact .same fun _ _ hne => absurd hx hne
        · rename_i o hx
          exact .closed o h.1 h.2 hcb hx
      · rename_i hcb
        exact .same fun _ h => absurd h hcb
    · rename_i h
      refine .same fun ha _ _ => ?_
      by_contra hna
      exact h ⟨ha, hna⟩

end Netd
end Zuzu.L5
