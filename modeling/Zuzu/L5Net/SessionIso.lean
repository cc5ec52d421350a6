import Zuzu.L5Net.NetdHeld
import Zuzu.L5Net.Session

/-!
# Sessions do not reach into each other

A request that carries a session's number is checked against the slot's generation and against
the sender's marker (`SessionFor`), its socket against the slot (`SocketFor`). Everything a
handler does to the tables of netd is one call of that slot, so what `step_apart` says of
the calls of a session holds of every request. A session that is released takes its sockets along;
the slot's next session therefore begins with none.

**Results.** `handle_cases`: what a request can do. `session_isolation`: a request with a wrong
number changes nothing, one with a right number nothing of other sessions, and an old number
is refused until the generation of its slot has gone round. As with all of netd, the runs meant
are those in which no callback finds a freed socket (`stale` in `Netd`).
-/
namespace Zuzu.L5
open Function Zuzu.Core

/-- The session number that a request carries. -/
def SockCmd.index : SockCmd → Option Nat
  | .attach .. | .unknown => none
  | .notify session _ | .open session .. | .bind session .. | .connect session ..
  | .listen session .. | .accept session .. | .close session .. => some session

namespace Server

variable {v v' : Server} {call : PortCall} {cmd : SockCmd} {index slot : Nat}

/-- The number is that of a session in use, and the sender may use it. -/
def Current (v : Server) (index sender : Nat) : Prop :=
  ∃ slot < sessionMax, index = sessionIndex (v.gen slot) slot ∧ (v.sess slot).inUse = true ∧
    ((v.sess slot).owner = markerNone ∨ (v.sess slot).owner = sender)

theorem sessionFor_spec {sender : Nat} (h : v.sessionFor index sender = some slot) :
    slot = indexSlot index ∧ slot < sessionMax ∧ (v.sess slot).inUse = true ∧
      v.gen slot = indexGen index ∧
      ((v.sess slot).owner = markerNone ∨ (v.sess slot).owner = sender) := by
  unfold sessionFor at h
  dsimp only at h
  split at h
  · cases h
  rename_i hin
  split at h
  · cases h
  rename_i howner
  cases h
  rw [not_or, not_or, not_le, not_not] at hin
  refine ⟨rfl, hin.1, Bool.of_not_eq_false hin.2.1, hin.2.2, ?_⟩
  by_cases hn : (v.sess (indexSlot index)).owner = markerNone
  · exact .inl hn
  · exact .inr (not_not.mp fun hs => howner ⟨hn, hs⟩)

/-- The check of the source is the one that is meant. -/
theorem sessionFor_current {sender : Nat} (h : v.sessionFor index sender = some slot) :
    v.Current index sender := by
  obtain ⟨hslot, hlt, hin, hgen, ho⟩ := sessionFor_spec h
  refine ⟨slot, hlt, ?_, hin, ho⟩
  rw [hgen, hslot]
  unfold sessionIndex indexGen indexSlot
  omega

/-! ## What a request can do -/

/-- A request that the session in `slot` made. -/
structure Served (v v' : Server) (slot : Nat) : Prop where
  gen : v'.gen = v.gen
  attached : v'.attached = v.attached
  others : ∀ i, i ≠ slot → v'.sess i = v.sess i
  inUse : (v'.sess slot).inUse = (v.sess slot).inUse
  net : v'.net = v.net ∨ ∃ l : Netd.Call, l.session = some slot ∧ v'.net = v.net.step l

theorem Served.refl (v : Server) (slot : Nat) : Served v v slot :=
  ⟨rfl, rfl, fun _ _ => rfl, rfl, .inl rfl⟩

theorem Served.ofNet {n : Netd} {l : Netd.Call} (hl : l.session = some slot)
    (hn : n = v.net.step l) : Served v { v with net := n } slot :=
  ⟨rfl, rfl, fun _ _ => rfl, rfl, .inr ⟨l, hl, hn⟩⟩

theorem Served.setSess (h : Served v v' slot) {s : Session}
    (hs : s.inUse = (v.sess slot).inUse) : Served v (v'.setSess slot s) slot where
  gen := h.gen
  attached := h.attached
  others i hi := (update_of_ne hi ..).trans (h.others i hi)
  inUse := by
    change (update v'.sess slot s slot).inUse = _
    rw [update_self]
    exact hs
  net := h.net

theorem Served.count (h : Served v v' slot) (f : Nat → Nat) :
    Served v (v'.sessionSocketCount slot f) slot := by
  unfold sessionSocketCount
  split
  · exact h
  · exact h.setSess h.inUse

theorem counted_served {r : Netd × Except SockErr Nat} {l : Netd.Call}
    (hl : l.session = some slot) (hn : r.1 = v.net.step l) :
    Served v (v.counted slot r).1 slot := by
  obtain ⟨n, e | id⟩ := r
  · exact .ofNet hl hn
  · exact (Served.ofNet hl hn).count _

/-- The socket of a request is one of the session's. -/
theorem withSocket_served {sock : Nat} {lost : SockErr}
    {f : Nat → SockId → Socket → Server × Except SockErr (List Nat)}
    (hf : ∀ slot o s, v.sessionFor index call.sender = some slot →
      v.net.socketFor sock slot = some o → v.net.socks o = some s → Served v (f slot o s).1 slot) :
    (v.withSocket call index sock lost f).1 = v ∨ ∃ slot,
      v.sessionFor index call.sender = some slot ∧
        Served v (v.withSocket call index sock lost f).1 slot := by
  unfold withSocket decodeSockRequest
  cases hfor : (if call.whole then v.sessionFor index call.sender else none) with
  | none => exact .inl rfl
  | some slot =>
    have hs : v.sessionFor index call.sender = some slot := by
      split at hfor
      · exact hfor
      · cases hfor
    dsimp only
    split
    · exact .inl rfl
    rename_i o ho
    split
    · exact .inl rfl
    rename_i s hsock
    exact .inr ⟨slot, hs, hf slot o s hs ho hsock⟩

theorem withSock_eq {n : Netd} {session id : Nat} {o : SockId} {s : Socket}
    {f : SockId → Socket → Netd} (ho : n.socketFor id session = some o)
    (hs : n.socks o = some s) : n.withSock session id f = f o s := by
  unfold Netd.withSock
  rw [ho]
  dsimp only
  rw [hs]

/-- **What a request with a session's number can do.** -/
theorem handle_cases (v : Server) (call : PortCall) (h : cmd.index = some index) :
    (v.sessionHandle call cmd).1 = v ∨ ∃ slot, v.sessionFor index call.sender = some slot ∧
      Served v (v.sessionHandle call cmd).1 slot := by
  cases cmd with
  | attach | unknown => cases h
  | notify session bit =>
    cases h
    simp only [sessionHandle, handleNotify]
    split
    · exact .inl rfl
    split
    · exact .inl rfl
    rename_i slot hs
    split
    · exact .inl rfl
    · exact .inr ⟨slot, hs, (Served.refl v slot).setSess rfl⟩
  | «open» session kind mem map =>
    cases h
    simp only [sessionHandle, handleSockOpen]
    split
    · exact .inl rfl
    split
    · exact .inl rfl
    rename_i slot hs
    exact .inr ⟨slot, hs, counted_served (l := .sockOpen slot kind (v.obstacle slot mem map)) rfl
      rfl⟩
  | bind session sock a =>
    cases h
    refine withSocket_served fun slot o s hs ho hsock => ?_
    split
    · exact .refl v slot
    · exact .ofNet (l := .sockBind slot sock a) rfl (by rw [Netd.step, withSock_eq ho hsock])
  | connect session sock a b isn =>
    cases h
    refine withSocket_served fun slot o s hs ho hsock => ?_
    split
    · exact .refl v slot
    · exact .ofNet (l := .sockConnect slot sock a b isn) rfl (by rw [Netd.step, withSock_eq ho hsock])
  | listen session sock a b =>
    cases h
    refine withSocket_served fun slot o s hs ho hsock => ?_
    split
    · exact .refl v slot
    · exact .ofNet (l := .sockListen slot sock a b) rfl (by rw [Netd.step, withSock_eq ho hsock])
  | accept session sock mem map sizes =>
    cases h
    simp only [sessionHandle, handleSockAccept]
    split
    · exact .inl rfl
    refine withSocket_served fun slot o s hs ho hsock => ?_
    exact counted_served (l := .sockAccept slot sock (v.obstacle slot mem map) sizes) rfl
      (by rw [Netd.step, withSock_eq ho hsock])
  | close session sock chunks =>
    cases h
    refine withSocket_served fun slot o s hs ho hsock => ?_
    exact (Served.ofNet (l := .sockClose slot sock chunks) rfl
      (by rw [Netd.step, withSock_eq ho hsock])).count (· - 1)

/-- What an attach can do. -/
theorem handleAttach_cases (v : Server) (call : PortCall) (dup bind : Option SockErr)
    (sent : Bool) : (v.handleAttach call dup bind sent).1 = v ∨ ∃ slot,
      v.allocSession = some slot ∧ ((v.handleAttach call dup bind sent).1 = v.attach slot call ∨
        (v.handleAttach call dup bind sent).1 =
          (v.attach slot call).releaseSession slot fun _ => []) := by
  unfold handleAttach
  split
  · exact .inl rfl
  split
  · exact .inl rfl
  · exact .inl rfl
  · exact .inl rfl
  rename_i slot hs
  split
  · exact .inr ⟨slot, hs, .inl rfl⟩
  · exact .inr ⟨slot, hs, .inr rfl⟩

/-! ## Generations -/

/-- The generations that a slot goes through. -/
def genCount : Nat := 2 ^ 24 - 1

/-- The generation that the `k`-th attach of a slot has. -/
def genOf (k : Nat) : Nat := if k = 0 then 0 else (k - 1) % genCount + 1

theorem genOf_succ (k : Nat) : genOf (k + 1) = k % genCount + 1 := rfl

theorem wrap_succ {M : Nat} (hM : 0 < M) (k : Nat) :
    (if (k % M + 1 + 1) % (M + 1) = 0 then 1 else (k % M + 1 + 1) % (M + 1)) =
      (k + 1) % M + 1 := by
  have hlt := Nat.mod_lt k hM
  rcases Nat.eq_or_lt_of_le (show k % M + 1 ≤ M from hlt) with he | hne
  · have hk : (k + 1) % M = 0 := by rw [← Nat.mod_add_mod, he, Nat.mod_self]
    rw [he, Nat.mod_self, if_pos rfl, hk]
  · have hk : (k + 1) % M = k % M + 1 := by
      rw [← Nat.mod_add_mod]
      exact Nat.mod_eq_of_lt hne
    rw [Nat.mod_eq_of_lt (show k % M + 1 + 1 < M + 1 by omega), if_neg (by omega), hk]

theorem nextGen_genOf (k : Nat) : nextGen (genOf k) = genOf (k + 1) := by
  cases k with
  | zero => decide
  | succ k =>
    rw [genOf_succ, genOf_succ]
    exact wrap_succ (M := genCount) (by decide) k

/-- A generation does not come again before all others have. -/
theorem genOf_ne {a d : Nat} (ha : 1 ≤ a) (hd : 1 ≤ d) (hlt : d < genCount) :
    genOf (a + d) ≠ genOf a := by
  obtain ⟨b, rfl⟩ := Nat.exists_eq_add_of_le' ha
  rw [show b + 1 + d = (b + d) + 1 by omega, genOf_succ, genOf_succ]
  intro he
  have hmod := Nat.sub_mod_eq_zero_of_mod_eq (Nat.succ.inj he)
  rw [Nat.add_sub_cancel_left, Nat.mod_eq_of_lt hlt] at hmod
  omega

/-! ## The server -/

/-- What reaches netd: requests, the doorbell, dead clients, and all that is not the clients'. -/
inductive Event
  | request (call : PortCall) (cmd : SockCmd)
  | doorbell (bits : Nat)
  | reap (bits : Nat) (dead : Nat → Bool) (chunks : SockId → List (List Byte))
  | net (l : Netd.Call)

def step (v : Server) : Event → Option Server
  | .request call cmd => some (v.sessionHandle call cmd).1
  | .doorbell bits => some (v.sessionDoorbell bits)
  | .reap bits dead chunks => some (v.sessionReapDead bits dead chunks)
  | .net l => if l.session = none then some { v with net := v.net.step l } else none

/-- The slots and their sockets. -/
structure Tidy (v : Server) : Prop where
  steady : Netd.Steady v.net none
  gen : ∀ slot, v.gen slot = genOf (v.attached slot)
  inUse : ∀ slot, (v.sess slot).inUse = true → 1 ≤ v.attached slot
  socks : ∀ o s, v.net.socks o = some s → (v.sess s.session).inUse = true

namespace Tidy

theorem boot (envs : Stream' Env) : Tidy (Server.boot envs) where
  steady := .boot envs
  gen _ := rfl
  inUse _ h := by cases h
  socks _ _ h := by cases h

section
variable (h : Tidy v)
include h

theorem served (hin : (v.sess slot).inUse = true) (hs : Served v v' slot) : Tidy v' where
  steady := by
    rcases hs.net with hn | ⟨l, -, hn⟩
    · rw [hn]
      exact h.steady
    · rw [hn]
      exact h.steady.step l
  gen i := by
    rw [hs.gen, hs.attached]
    exact h.gen i
  inUse i hi := by
    rw [hs.attached]
    by_cases his : i = slot
    · exact his ▸ h.inUse slot hin
    · exact h.inUse i (hs.others i his ▸ hi)
  socks o s ho := by
    by_cases hk : s.session = slot
    · rw [hk, hs.inUse]
      exact hin
    · rw [hs.others _ hk]
      rcases hs.net with hn | ⟨l, hl, hn⟩
      · exact h.socks o s (hn ▸ ho)
      · exact h.socks o s ((Netd.step_apart h.steady hl).new o s (hn ▸ ho) hk)

theorem attach (slot : Nat) (call : PortCall) : Tidy (v.attach slot call) where
  steady := h.steady
  gen i := by
    change update v.gen slot _ i = genOf (update v.attached slot _ i)
    by_cases hi : i = slot
    · subst hi
      rw [update_self, update_self, h.gen i, nextGen_genOf]
    · rw [update_of_ne hi, update_of_ne hi]
      exact h.gen i
  inUse i hi := by
    change 1 ≤ update v.attached slot _ i
    by_cases his : i = slot
    · subst his
      rw [update_self]
      omega
    · rw [update_of_ne his]
      refine h.inUse i ?_
      change (update v.sess slot _ i).inUse = true at hi
      rwa [update_of_ne his] at hi
  socks o s ho := by
    change (update v.sess slot _ s.session).inUse = true
    by_cases hk : s.session = slot
    · rw [hk, update_self]
    · rw [update_of_ne hk]
      exact h.socks o s ho

theorem release (slot : Nat) (chunks : SockId → List (List Byte)) :
    Tidy (v.releaseSession slot chunks) where
  steady := h.steady.step (.closeAll slot chunks)
  gen := h.gen
  inUse i hi := by
    change (update v.sess slot _ i).inUse = true at hi
    by_cases his : i = slot
    · subst his
      rw [update_self] at hi
      cases hi
    · rw [update_of_ne his] at hi
      exact h.inUse i hi
  socks o s ho := by
    have hk : s.session ≠ slot := Netd.closeAll_gone h.steady slot chunks ho
    have hold := (Netd.step_apart (l := .closeAll slot chunks) h.steady rfl).new o s ho hk
    change (update v.sess slot _ s.session).inUse = true
    rw [update_of_ne hk]
    exact h.socks o s hold

theorem request (call : PortCall) (cmd : SockCmd) : Tidy (v.sessionHandle call cmd).1 := by
  cases hidx : cmd.index with
  | some index =>
    rcases handle_cases v call hidx with he | ⟨slot, hfor, hs⟩
    · rw [he]
      exact h
    · exact h.served (sessionFor_spec hfor).2.2.1 hs
  | none =>
    cases cmd with
    | attach dup bind sent =>
      change Tidy (v.handleAttach call dup bind sent).1
      rcases handleAttach_cases v call dup bind sent with he | ⟨slot, -, he | he⟩
      · rw [he]
        exact h
      · rw [he]
        exact h.attach slot call
      · rw [he]
        exact (h.attach slot call).release slot _
    | unknown => exact h
    | _ => cases hidx

theorem doorbell (bits : Nat) : Tidy (v.sessionDoorbell bits) := by
  have hin : ∀ i, ((v.sessionDoorbell bits).sess i).inUse = (v.sess i).inUse := fun i => by
    change (if _ then _ else _ : Session).inUse = _
    split <;> rfl
  exact ⟨h.steady, h.gen, fun i hi => h.inUse i (hin i ▸ hi),
    fun o s ho => (hin _).trans (h.socks o s ho)⟩

theorem reap (bits : Nat) (dead : Nat → Bool)
    (chunks : SockId → List (List Byte)) : Tidy (v.sessionReapDead bits dead chunks) := by
  unfold sessionReapDead
  generalize List.range sessionMax = slots
  induction slots generalizing v with
  | nil => exact h
  | cons slot slots ih =>
    refine ih ?_
    dsimp only
    split
    · exact h.release slot chunks
    · exact h

theorem net {l : Netd.Call} (hl : l.session = none) : Tidy { v with net := v.net.step l } where
  steady := h.steady.step l
  gen := h.gen
  inUse := h.inUse
  socks o s ho := by
    obtain ⟨s', hs', hface⟩ := Netd.step_fades hl o s ho
    have hk : s.session = s'.session := congrArg SockFace.session hface
    rw [hk]
    exact h.socks o s' hs'

theorem step {e : Event} (he : v.step e = some v') : Tidy v' := by
  cases e with
  | request call cmd =>
    cases he
    exact h.request call cmd
  | doorbell bits =>
    cases he
    exact h.doorbell bits
  | reap bits dead chunks =>
    cases he
    exact h.reap bits dead chunks
  | net l =>
    simp only [Server.step] at he
    split at he
    · cases he
      exact h.net ‹_›
    · cases he

end

end Tidy

end Server

/-- netd and its clients. -/
def serverSystem : LTS Server Server.Event :=
  LTS.ofFun (fun v => ∃ envs, v = Server.boot envs) Server.step

namespace Server

variable {v v' : Server} {slot : Nat}

theorem tidy (h : serverSystem.Reachable v) : Tidy v := by
  have hind : serverSystem.Inductive Tidy :=
    ⟨fun ⟨envs, he⟩ => he ▸ .boot envs, fun ht he => ht.step he⟩
  exact hind.reachable h

/-! ## Numbers that are given back -/

theorem attached_le {e : Event} (he : v.step e = some v') (slot : Nat) :
    v.attached slot ≤ v'.attached slot := by
  have hrelease : ∀ (v : Server) k chunks, (v.releaseSession k chunks).attached = v.attached :=
    fun _ _ _ => rfl
  have hattach : ∀ k call, v.attached slot ≤ (v.attach k call).attached slot := fun k call => by
    change _ ≤ update v.attached k _ slot
    by_cases hk : slot = k
    · subst hk
      rw [update_self]
      omega
    · rw [update_of_ne hk]
  cases e with
  | request call cmd =>
    cases he
    cases hidx : cmd.index with
    | some index =>
      rcases handle_cases v call hidx with he | ⟨k, -, hs⟩
      · rw [he]
      · rw [hs.attached]
    | none =>
      cases cmd with
      | attach dup bind sent =>
        change _ ≤ (v.handleAttach call dup bind sent).1.attached slot
        rcases handleAttach_cases v call dup bind sent with he | ⟨k, -, he | he⟩
        · rw [he]
        · rw [he]
          exact hattach k call
        · rw [he, hrelease]
          exact hattach k call
      | unknown => exact Nat.le_refl _
      | _ => cases hidx
  | doorbell bits =>
    cases he
    exact Nat.le_refl _
  | reap bits dead chunks =>
    cases he
    refine Nat.le_of_eq (foldl_keeps (g := fun v : Server => v.attached slot) (fun v k => ?_)
      ..).symm
    split
    · rw [hrelease]
    · rfl
  | net l =>
    simp only [Server.step] at he
    split at he
    · cases he
      exact Nat.le_refl _
    · cases he

theorem run_attached_le {es : List Event} (hr : serverSystem.Run v es v') (slot : Nat) :
    v.attached slot ≤ v'.attached slot := by
  induction hr with
  | nil => exact Nat.le_refl _
  | cons he _ ih => exact (attached_le he slot).trans ih

/-- The number of a session that has been released since, and whose slot has been given away
fewer than `genCount` times. -/
theorem old_number_refused (h : serverSystem.Reachable v) {es : List Event}
    (hr : serverSystem.Run v es v') (hslot : slot < sessionMax)
    (hin : (v.sess slot).inUse = true)
    (hgone : v'.attached slot = v.attached slot → (v'.sess slot).inUse = false)
    (hlt : v'.attached slot - v.attached slot < genCount) (sender : Nat) :
    v'.sessionFor (sessionIndex (v.gen slot) slot) sender = none := by
  have ht := tidy h
  have ht' := tidy (h.run hr)
  have hle := run_attached_le hr slot
  cases hfor : v'.sessionFor (sessionIndex (v.gen slot) slot) sender with
  | none => rfl
  | some k =>
    obtain ⟨hk, -, hin', hgen, -⟩ := sessionFor_spec hfor
    have hlow : slot % 2 ^ 8 = slot := Nat.mod_eq_of_lt (by unfold sessionMax at hslot; omega)
    have hkslot : k = slot := by
      rw [hk, indexSlot, sessionIndex, hlow]
      omega
    have hgens : indexGen (sessionIndex (v.gen slot) slot) = v.gen slot := by
      rw [indexGen, sessionIndex, hlow]
      omega
    subst hkslot
    rw [hgens, ht'.gen, ht.gen] at hgen
    rcases Nat.eq_or_lt_of_le hle with heq | hlt'
    · rw [hgone heq.symm] at hin'
      cases hin'
    · refine absurd hgen ?_
      obtain ⟨d, hd⟩ := Nat.exists_eq_add_of_lt hlt'
      rw [hd, Nat.add_assoc]
      exact genOf_ne (ht.inUse k hin) (by omega) (by omega)

/-! ## Isolation -/

/-- Only the session in `slot` has changed, and only its sockets. -/
structure OnlyOf (slot : Nat) (v v' : Server) : Prop where
  apart : Netd.Apart slot v.net v'.net
  sess : ∀ i, i ≠ slot → v'.sess i = v.sess i
  gen : ∀ i, i ≠ slot → v'.gen i = v.gen i

theorem OnlyOf.refl (slot : Nat) (v : Server) : OnlyOf slot v v :=
  ⟨.refl slot v.net, fun _ _ => rfl, fun _ _ => rfl⟩

theorem Served.only (hs : Served v v' slot) (h : Tidy v) : OnlyOf slot v v' := by
  refine ⟨?_, hs.others, fun i _ => by rw [hs.gen]⟩
  rcases hs.net with hn | ⟨l, hl, hn⟩
  · rw [hn]
    exact .refl slot v.net
  · rw [hn]
    exact Netd.step_apart h.steady hl

theorem attach_only (h : Tidy v) (call : PortCall) (dup bind : Option SockErr) (sent : Bool)
    (hs : v.allocSession = some slot) :
    OnlyOf slot v (v.handleAttach call dup bind sent).1 := by
  rcases handleAttach_cases v call dup bind sent with he | ⟨k, hk, he | he⟩
  · rw [he]
    exact .refl slot v
  · rw [hs] at hk
    cases hk
    rw [he]
    exact ⟨.refl slot v.net, fun i hi => update_of_ne hi ..,
      fun i hi => update_of_ne hi ..⟩
  · rw [hs] at hk
    cases hk
    rw [he]
    refine ⟨?_, fun i hi => ?_, fun i hi => update_of_ne hi ..⟩
    · exact Netd.step_apart (l := .closeAll slot fun _ => []) h.steady rfl
    · exact (update_of_ne hi ..).trans (update_of_ne hi ..)

/-- **Sessions are isolated.** In every state of every run: a request whose number is not that of a
session in use which the sender may use changes nothing at all; a request with a number
changes only that slot's session and its sockets, an attach only those of the slot it takes, and
anything else nothing; sockets belong to sessions in use, so a session that is attached anew
has none; and the number of a session that has been released is refused, from whomever, until
the slot has been given away `2 ^ 24 - 1` times. -/
theorem session_isolation (h : serverSystem.Reachable v) :
    (∀ call cmd index, cmd.index = some index → ¬v.Current index call.sender →
      (v.sessionHandle call cmd).1 = v) ∧
    (∀ call cmd index, cmd.index = some index →
      OnlyOf (indexSlot index) v (v.sessionHandle call cmd).1) ∧
    (∀ call dup bind sent slot, v.allocSession = some slot →
      OnlyOf slot v (v.sessionHandle call (.attach dup bind sent)).1) ∧
    (∀ call dup bind sent, v.allocSession = none →
      (v.sessionHandle call (.attach dup bind sent)).1 = v) ∧
    (∀ call, (v.sessionHandle call .unknown).1 = v) ∧
    (∀ o s, v.net.socks o = some s → (v.sess s.session).inUse = true) ∧
    ∀ es v' slot, serverSystem.Run v es v' → slot < sessionMax → (v.sess slot).inUse = true →
      (v'.attached slot = v.attached slot → (v'.sess slot).inUse = false) →
      v'.attached slot - v.attached slot < 2 ^ 24 - 1 →
      ∀ sender, v'.sessionFor (sessionIndex (v.gen slot) slot) sender = none := by
  have ht := tidy h
  refine ⟨fun call cmd index hidx hcur => ?_, fun call cmd index hidx => ?_,
    fun call dup bind sent slot hs => attach_only ht call dup bind sent hs,
    fun call dup bind sent hnone => ?_, fun _ => rfl, ht.socks,
    fun es v' slot hr hslot hin hgone hlt sender =>
      old_number_refused h hr hslot hin hgone hlt sender⟩
  · rcases handle_cases v call hidx with he | ⟨slot, hfor, -⟩
    · exact he
    · exact absurd (sessionFor_current hfor) hcur
  · rcases handle_cases v call hidx with he | ⟨slot, hfor, hs⟩
    · rw [he]
      exact .refl _ v
    · rw [← (sessionFor_spec hfor).1]
      exact hs.only ht
  · rcases handleAttach_cases v call dup bind sent with he | ⟨k, hk, -⟩
    · exact he
    · rw [hnone] at hk
      cases hk

/-- The first client's session after a request with a number that nobody has. -/
theorem session_isolation_first : (first.sess 0).inUse = true ∧
    (first.sessionHandle ⟨9, some 4, true⟩ (.open 512 (some .tcp) none none)).1 = first ∧
    OnlyOf 0 first (first.sessionHandle ⟨7, some 4, true⟩ (.open 256 (some .tcp) none none)).1 := by
  have hs : (boot (Stream'.const Env.idle)).allocSession = some 0 := by decide +kernel
  have hreach : serverSystem.Reachable first := by
    refine (LTS.Reachable.init (L := serverSystem) ⟨Stream'.const Env.idle, rfl⟩).step
      (l := .request ⟨7, some 3, true⟩ (.attach none none true)) ?_
    change some (handleAttach _ _ _ _ _).1 = some first
    unfold handleAttach
    rw [hs]
    rfl
  have hiso := session_isolation hreach
  refine ⟨rfl, hiso.1 ⟨9, some 4, true⟩ _ 512 rfl ?_, hiso.2.1 ⟨7, some 4, true⟩ _ 256 rfl⟩
  rintro ⟨slot, hslot, hidx, hin, -⟩
  revert slot
  decide +kernel

end Server
end Zuzu.L5
