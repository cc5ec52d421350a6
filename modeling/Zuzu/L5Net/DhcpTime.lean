import Zuzu.L5Net.DhcpRuns

/-!
# The DHCP client and the clock

The main loop calls `ArpTick` and `DhcpTick` for ever, at least once a second of uptime
(`Regular`). The uptime is a plain number of milliseconds here, while the client sees it
modulo `2 ^ 32`, so after 49 days a lease looks as new as on its first day.

**Results.** `client_is_alive`: as long as the DISCOVER of a restart is sent and half of every
lease is shorter than the period of the clock, the ticks alone make the client act again.
`lease_on_time_iff`: renewal and expiry are on time for every schedule exactly if the lease is
at most 4294966 seconds.
-/
namespace Zuzu.L5
open Zuzu.Core
variable {s s' : Node} {st : DhcpState} {d : Dhcp} {lease : BitVec 32}

/-! ## Schedules -/

/-- Calls of a tick from uptime `start` on, for ever, with at most a second between two. -/
structure Regular (start : Nat) (env : Nat → NetEnv) : Prop where
  first : start ≤ (env 0).clock.head ∧ (env 0).clock.head ≤ start + 1000
  next : ∀ n, (env n).clock.head ≤ (env (n + 1)).clock.head ∧
    (env (n + 1)).clock.head ≤ (env n).clock.head + 1000
  endless : ∀ ms, ∃ n, ms ≤ (env n).clock.head

namespace Regular
variable {start : Nat} {env : Nat → NetEnv}

theorem start_le (h : Regular start env) : ∀ n, start ≤ (env n).clock.head
  | 0 => h.first.1
  | n + 1 => (start_le h n).trans (h.next n).1

/-- The first call at `ms` or later comes less than a second after `ms`, or is the very first. -/
theorem reach (h : Regular start env) (ms : Nat) (hms : start ≤ ms) :
    ∃ n, ms ≤ (env n).clock.head ∧ (env n).clock.head ≤ ms + 1000 ∧
      ∀ m < n, (env m).clock.head < ms := by
  have hex := h.endless ms
  refine ⟨Nat.find hex, Nat.find_spec hex, ?_, fun m hm => Nat.lt_of_not_le (Nat.find_min hex hm)⟩
  cases hn : Nat.find hex with
  | zero => exact h.first.2.trans (Nat.add_le_add_right hms 1000)
  | succ n =>
    have hlt : (env n).clock.head < ms :=
      Nat.lt_of_not_le (Nat.find_min hex (by rw [hn]; exact Nat.lt_succ_self n))
    have := (h.next n).2
    omega

/-- Every stretch of more than a second of the clock's period is hit. -/
theorem hits (h : Regular start env) (x : BitVec 32) (lo hi : Nat) (hw : lo + 1000 < hi)
    (hhi : hi ≤ 2 ^ 32) :
    ∃ n, lo ≤ (BitVec.ofNat 32 (env n).clock.head - x).toNat ∧
      (BitVec.ofNat 32 (env n).clock.head - x).toNat < hi := by
  -- a time after `start` at which the clock shows `lo` milliseconds after `x`
  obtain ⟨n, h1, h2, -⟩ := h.reach (x.toNat + lo + 2 ^ 32 * start) (by omega)
  refine ⟨n, ?_⟩
  obtain ⟨k, hk⟩ := Nat.exists_eq_add_of_le h1
  have hval : (BitVec.ofNat 32 (env n).clock.head - x).toNat = lo + k := by
    rw [BitVec.toNat_sub, BitVec.toNat_ofNat, hk]
    omega
  omega

end Regular

theorem sinceMs_of_lt {now ms : BitVec 32} (h : (now - ms).toNat < 2 ^ 31) :
    sinceMs now ms = (now - ms).toNat := by
  rw [sinceMs, BitVec.toInt_eq_toNat_of_lt (by omega)]

/-! ## What a tick does at a given reading -/

section Tick
variable {c : Dx} {now : BitVec 32}

theorem tickLeased_expires (ht : c.dhcp.leaseSecs ≤ c.dhcp.held now) :
    (tickLeased c now).dhcp.state.isBound = false ∧ (tickLeased c now).netif.ip = 0 := by
  unfold tickLeased
  rw [if_pos ht]
  obtain ⟨m, x, a, b, h⟩ := dhcpRestart_toNode { c with netif := ⟨0, 0, 0, 0, c.netif.mac⟩ }
  rw [h]
  refine ⟨?_, rfl⟩
  rcases Dhcp.restarted_state with h | h <;> rw [h] <;> rfl

theorem tickLeased_holds (hs : c.dhcp.state.leased) (ht : ¬c.dhcp.leaseSecs ≤ c.dhcp.held now) :
    (tickLeased c now).dhcp.state.leased ∧ c.dhcp.SameLease (tickLeased c now).dhcp := by
  unfold tickLeased
  rw [if_neg ht]
  exact (tickRenew_renews now hs).holds

end Tick

section Step
variable {s : Node}

/-- The reading of a tick. -/
def NetEnv.now (env : NetEnv) : BitVec 32 := BitVec.ofNat 32 env.clock.head

theorem tick_eq (env : NetEnv) (hs : s.dhcp.state = st) :
    s.step (.tick, env) = (match st with
      | .init | .probing => (s.with env).later
      | .selecting | .requesting => tickAsking (s.with env).later env.now
      | .bound => tickBound (s.with env).later env.now
      | .renewing | .rebinding => tickLeased (s.with env).later env.now).toNode := by
  subst hs
  rfl

theorem tick_leased (env : NetEnv) (hs : s.dhcp.state.leased) :
    s.step (.tick, env) = (tickLeased (s.with env).later env.now).toNode := by
  cases hst : s.dhcp.state with
  | renewing | rebinding => exact tick_eq env hst
  | init | selecting | requesting | probing | bound =>
    rw [hst] at hs
    cases hs

end Step

/-! ## A lease and its end -/

/-- The node after the first `n` ticks, when nothing else happens. -/
def Node.ticked (s : Node) (env : Nat → NetEnv) : Nat → Node
  | 0 => s
  | n + 1 => (s.ticked env n).step (.tick, env n)

/-- Renewal begins by half of the lease and a tick after `start`, and the address is given up by
the whole lease and two ticks. -/
def OnTime (s : Node) (start lease : Nat) (env : Nat → NetEnv) : Prop :=
  (∃ n, (env n).clock.head ≤ start + 1000 * (lease / 2) + 1000 ∧
    (s.ticked env (n + 1)).dhcp.state.leased) ∧
  ∃ n, (env n).clock.head ≤ start + 1000 * lease + 2000 ∧
    (s.ticked env (n + 1)).dhcp.state.isBound = false ∧ (s.ticked env (n + 1)).netif.ip = 0

/-- The lease of `s` began at `start` and is for `lease` seconds. -/
structure LeasedAt (s : Node) (start : Nat) (lease : BitVec 32) : Prop where
  secs : s.dhcp.leaseSecs = lease
  t1 : s.dhcp.t1Secs = lease / 2
  t2 : s.dhcp.t2Secs = lease - lease / 8
  bound : s.dhcp.boundMs = BitVec.ofNat 32 start

theorem LeasedAt.enterBound {start : Nat}
    (h : s.dhcp = d.enterBound lease (BitVec.ofNat 32 start)) : LeasedAt s start lease := by
  constructor <;> rw [h] <;> rfl

theorem LeasedAt.same {start : Nat} (h : LeasedAt s start lease)
    (hs : s.dhcp.SameLease s'.dhcp) : LeasedAt s' start lease :=
  ⟨hs.1.trans h.secs, hs.2.1.trans h.t1, hs.2.2.1.trans h.t2, hs.2.2.2.trans h.bound⟩

theorem Dhcp.held_toNat {start now : Nat} (hb : d.boundMs = BitVec.ofNat 32 start)
    (h : start ≤ now) :
    (d.held (BitVec.ofNat 32 now)).toNat = (now - start) % 2 ^ 32 / 1000 := by
  rw [Dhcp.held, hb, BitVec.toNat_udiv, BitVec.toNat_sub, BitVec.toNat_ofNat, BitVec.toNat_ofNat]
  have h1000 : (1000 : BitVec 32).toNat = 1000 := by decide
  rw [h1000]
  omega

theorem half_toNat (lease : BitVec 32) : (lease / 2).toNat = lease.toNat / 2 := by
  rw [BitVec.toNat_udiv]
  rfl

theorem late_toNat (lease : BitVec 32) :
    (lease - lease / 8).toNat = lease.toNat - lease.toNat / 8 := by
  have h8 : (lease / 8).toNat = lease.toNat / 8 := by
    rw [BitVec.toNat_udiv]
    rfl
  rw [BitVec.toNat_sub_of_le (by rw [BitVec.le_def, h8]; omega), h8]

namespace LeasedAt
variable {s : Node} {start : Nat} {lease : BitVec 32} {env : NetEnv}

section
variable (h : LeasedAt s start lease) (hn : start ≤ env.clock.head)
include h hn

theorem renew_due : s.dhcp.t1Secs ≤ s.dhcp.held env.now ↔
      lease.toNat / 2 ≤ (env.clock.head - start) % 2 ^ 32 / 1000 := by
  rw [BitVec.le_def, h.t1, half_toNat, NetEnv.now, Dhcp.held_toNat h.bound hn]

theorem rebind_due : s.dhcp.t2Secs ≤ s.dhcp.held env.now ↔
      lease.toNat - lease.toNat / 8 ≤ (env.clock.head - start) % 2 ^ 32 / 1000 := by
  rw [BitVec.le_def, h.t2, late_toNat, NetEnv.now, Dhcp.held_toNat h.bound hn]

theorem end_due : s.dhcp.leaseSecs ≤ s.dhcp.held env.now ↔
      lease.toNat ≤ (env.clock.head - start) % 2 ^ 32 / 1000 := by
  rw [BitVec.le_def, h.secs, NetEnv.now, Dhcp.held_toNat h.bound hn]

end

end LeasedAt

section Schedule
variable {s : Node} {start : Nat} {lease : BitVec 32} {env : Nat → NetEnv}

/-- Until half of the lease is over nothing happens. -/
theorem ticked_before_half (hs : s.dhcp.state = .bound) (hl : LeasedAt s start lease)
    (hr : Regular start env) (hlong : 1000 * (lease.toNat / 2) ≤ 2 ^ 32) :
    ∀ n, (∀ m < n, (env m).clock.head < start + 1000 * (lease.toNat / 2)) → s.ticked env n = s
  | 0, _ => rfl
  | n + 1, h => by
    have ih := ticked_before_half hs hl hr hlong n (fun m hm => h m (Nat.lt_succ_of_lt hm))
    have hn := h n (Nat.lt_succ_self n)
    have hge := hr.start_le n
    have h1 : ¬s.dhcp.t1Secs ≤ s.dhcp.held (env n).now := by
      rw [hl.renew_due hge]
      omega
    have h2 : ¬s.dhcp.t2Secs ≤ s.dhcp.held (env n).now := by
      rw [hl.rebind_due hge]
      omega
    rw [Node.ticked, ih, tick_eq _ hs]
    dsimp only
    rw [tickBound_waits (c := (s.with (env n)).later) _ h1 h2]
    rfl

/-- From the renewal to the end of the lease it is held. -/
theorem ticked_until_end (hr : Regular start env) (hlong : 1000 * lease.toNat ≤ 2 ^ 32) {n₀ : Nat}
    (hs : (s.ticked env n₀).dhcp.state.leased) (hl : LeasedAt (s.ticked env n₀) start lease) :
    ∀ k, (∀ m < n₀ + k, (env m).clock.head < start + 1000 * lease.toNat) →
      (s.ticked env (n₀ + k)).dhcp.state.leased ∧ LeasedAt (s.ticked env (n₀ + k)) start lease
  | 0, _ => ⟨hs, hl⟩
  | k + 1, h => by
    obtain ⟨ihs, ihl⟩ := ticked_until_end hr hlong hs hl k (fun m hm => h m (by omega))
    have hn := h (n₀ + k) (by omega)
    have hge := hr.start_le (n₀ + k)
    have hend : ¬(s.ticked env (n₀ + k)).dhcp.leaseSecs ≤
        (s.ticked env (n₀ + k)).dhcp.held (env (n₀ + k)).now := by
      rw [ihl.end_due hge]
      omega
    obtain ⟨h1, h2⟩ := tickLeased_holds (c := ((s.ticked env (n₀ + k)).with (env (n₀ + k))).later)
      ihs hend
    rw [← Nat.add_assoc, Node.ticked, tick_leased _ ihs]
    exact ⟨h1, ihl.same h2⟩

theorem due_of_lt {e secs : Nat} (h : 1000 * secs ≤ e) (he : e < 2 ^ 32) :
    secs ≤ e % 2 ^ 32 / 1000 := by
  rw [Nat.mod_eq_of_lt he]
  omega

/-- A tick after the end of the lease gives the address up, within the period of the clock. -/
theorem ticked_at_end {n : Nat} (hr : Regular start env)
    (hs : (s.ticked env n).dhcp.state.leased) (hl : LeasedAt (s.ticked env n) start lease)
    (hdue : start + 1000 * lease.toNat ≤ (env n).clock.head)
    (hlong : (env n).clock.head < start + 2 ^ 32) :
    (s.ticked env (n + 1)).dhcp.state.isBound = false ∧ (s.ticked env (n + 1)).netif.ip = 0 := by
  have hend : (s.ticked env n).dhcp.leaseSecs ≤ (s.ticked env n).dhcp.held (env n).now := by
    rw [hl.end_due (hr.start_le n)]
    exact due_of_lt (by omega) (by omega)
  rw [Node.ticked, tick_leased _ hs]
  exact tickLeased_expires (c := ((s.ticked env n).with (env n)).later) hend

/-- A lease that the clock can measure is renewed and given up on time. -/
theorem onTime_of_short (hs : s.dhcp.state = .bound) (hl : LeasedAt s start lease)
    (hr : Regular start env) (hshort : lease.toNat ≤ 4294966) :
    OnTime s start lease.toNat env := by
  have hf : s.dhcp.leaseSecs ≠ dhcpLeaseInfinite := by
    rw [hl.secs]
    rintro rfl
    exact absurd hshort (by decide)
  -- the first tick after half of the lease begins the renewal
  obtain ⟨n, hn1, hn2, hn3⟩ := hr.reach (start + 1000 * (lease.toNat / 2)) (by omega)
  have hbefore := ticked_before_half hs hl hr (by omega) n hn3
  have hdue : s.dhcp.t1Secs ≤ s.dhcp.held (env n).now := by
    rw [hl.renew_due (hr.start_le n)]
    exact due_of_lt (by omega) (by omega)
  have hren := (tickBound_renews (c := (s.with (env n)).later) _ hf (.inl hdue)).holds
  have hnext : s.ticked env (n + 1) = (tickBound (s.with (env n)).later (env n).now).toNode := by
    rw [Node.ticked, hbefore, tick_eq _ hs]
  have hleased : (s.ticked env (n + 1)).dhcp.state.leased := by
    rw [hnext]
    exact hren.1
  have hsame : LeasedAt (s.ticked env (n + 1)) start lease := by
    rw [hnext]
    exact hl.same hren.2
  refine ⟨⟨n, hn2, hleased⟩, ?_⟩
  -- the first tick after the whole lease gives the address up, or the next one if it is the same
  obtain ⟨j, hj1, hj2, hj3⟩ := hr.reach (start + 1000 * lease.toNat) (by omega)
  rcases Nat.lt_trichotomy n j with hlt | rfl | hgt
  · obtain ⟨k, rfl⟩ := Nat.exists_eq_add_of_lt hlt
    rw [Nat.add_right_comm n k 1] at hj1 hj2 hj3
    obtain ⟨h1, h2⟩ := ticked_until_end hr (by omega) hleased hsame k hj3
    exact ⟨n + 1 + k, by omega, ticked_at_end hr h1 h2 hj1 (by omega)⟩
  · have hnext := hr.next n
    exact ⟨n + 1, by omega, ticked_at_end hr hleased hsame (by omega) (by omega)⟩
  · have := hn3 j hgt
    omega

/-- A lease that the clock never sees end is never given up. -/
theorem ticked_isBound (hl : LeasedAt s start lease) (hr : Regular start env)
    (hs : s.dhcp.state.isBound) :
    ∀ n, (∀ m < n, ¬lease.toNat ≤ ((env m).clock.head - start) % 2 ^ 32 / 1000) →
      (s.ticked env n).dhcp.state.isBound ∧ LeasedAt (s.ticked env n) start lease
  | 0, _ => ⟨hs, hl⟩
  | n + 1, h => by
    obtain ⟨ihs, ihl⟩ := ticked_isBound hl hr hs n (fun m hm => h m (by omega))
    have hend : ¬(s.ticked env n).dhcp.leaseSecs ≤ (s.ticked env n).dhcp.held (env n).now := by
      rw [ihl.end_due (hr.start_le n)]
      exact h n (Nat.lt_succ_self n)
    have hm := Node.step_move (s := s.ticked env n) (l := (.tick, env n)) rfl
    rw [Node.ticked]
    generalize (s.ticked env n).step (.tick, env n) = s' at hm ⊢
    cases hm with
    | stay => exact ⟨ihs, ihl⟩
    | ask ha | giveUp ha =>
      exact absurd ihs (Bool.eq_false_iff.mp (DhcpState.not_isBound_of_asking ha))
    | expired hl' hr' =>
      rcases of_decide_eq_true hr' with h' | h'
      · exact absurd ihs (Bool.eq_false_iff.mp (DhcpState.not_isBound_of_asking h'.1))
      · exact absurd h'.2 hend
    | renew _ hd hsame => exact ⟨DhcpState.isBound_of_leased hd, ihl.same hsame⟩

end Schedule

/-- A node that has taken a lease of `lease` seconds at uptime 0. -/
def Node.leased (lease : BitVec 32) : Node :=
  { Node.blank [1, 2, 3, 4, 5, 6] with
    dhcp := (Node.blank [1, 2, 3, 4, 5, 6]).dhcp.enterBound lease 0
    netif := ⟨9, 0, 0, 0, [1, 2, 3, 4, 5, 6]⟩ }

/-- A tick each second, just before the second is full. -/
def lateTicks (n : Nat) : NetEnv := stillAt (999 + 1000 * n)

theorem lateTicks_regular : Regular 0 lateTicks := by
  have hhead : ∀ n, (lateTicks n).clock.head = 999 + 1000 * n := fun _ => rfl
  refine ⟨?_, fun n => ?_, fun ms => ⟨ms, ?_⟩⟩
  · rw [hhead]
    omega
  · rw [hhead, hhead]
    omega
  · rw [hhead]
    omega

/-- Ticks that come just before the second is full never see the end of a long lease in time. -/
theorem not_due_of_late {m secs : Nat} (hlong : 4294967 ≤ secs)
    (hm : 999 + 1000 * m ≤ 1000 * secs + 2000) : ¬secs ≤ (999 + 1000 * m) % 2 ^ 32 / 1000 := by
  intro h
  rcases Nat.lt_or_ge (999 + 1000 * m) (2 ^ 32) with hlt | hge
  · rw [Nat.mod_eq_of_lt hlt] at h
    omega
  · omega

theorem late_of_long (h : 4294967 ≤ lease.toNat) :
    ¬OnTime (Node.leased lease) 0 lease.toNat lateTicks := by
  rintro ⟨-, n, hn, hgone, -⟩
  have hhead : ∀ n, (lateTicks n).clock.head = 999 + 1000 * n := fun _ => rfl
  have hl : LeasedAt (Node.leased lease) 0 lease := ⟨rfl, rfl, rfl, rfl⟩
  rw [hhead] at hn
  obtain ⟨hb, -⟩ := ticked_isBound hl lateTicks_regular rfl (n + 1) (fun m hm => by
    rw [hhead]
    exact not_due_of_late h (by omega))
  rw [hgone] at hb
  cases hb

/-- Renewal and expiry are on time, for every start and every schedule, exactly if the lease is
at most 4294966 seconds. -/
theorem lease_on_time_iff (lease : BitVec 32) :
    (∀ (s : Node) (d : Dhcp) (start : Nat) (env : Nat → NetEnv),
      s.dhcp = d.enterBound lease (BitVec.ofNat 32 start) → Regular start env →
        OnTime s start lease.toNat env) ↔
      lease.toNat ≤ 4294966 := by
  constructor
  · intro h
    by_contra hlong
    exact late_of_long (by omega) (h (Node.leased lease) _ 0 lateTicks rfl lateTicks_regular)
  · intro hshort s d start env hd hr
    exact onTime_of_short (by rw [hd]; rfl) (.enterBound hd) hr hshort

/-- A lease of fifty days is over after fifty days, and the client still has the address. -/
theorem fifty_days_are_not_noticed :
    ¬OnTime (Node.leased 4320000) 0 4320000 lateTicks :=
  late_of_long (by decide)

/-! ## The client acts again -/

/-- A message of the client or a probe. -/
def Note.isMessage : Note → Bool
  | .sent .. | .probe _ => true
  | _ => false

/-- From `s` to `s'` the client changed its state or offered a message. -/
def Acted (s s' : Node) : Prop :=
  s'.dhcp.state ≠ s.dhcp.state ∨ ∃ n ∈ s'.log.drop s.log.length, n.isMessage

/-- The node after `n` calls of the main loop, `ArpTick` and `DhcpTick` in turn, in which no
packet arrives. mirrors netd/main.c:276-277 -/
def Node.polled (s : Node) (env : Nat → NetEnv) : Nat → Node
  | 0 => s
  | n + 1 => (s.polled env n).step (if n % 2 = 0 then .arpTick else .tick, env n)

/-- A DISCOVER that starts over is sent, and half of a lease is shorter than the period of the
clock. -/
def Heard (s : Node) : DhcpEvent × NetEnv → Prop
  | (.recv data, env) =>
    (s.restarts env.now (.recv data) → env.udp.head) ∧
    (s.dhcp.state = .requesting → s.dhcp.accepts data = some 5 →
      (leaseOf (data.take dhcpAckBufsz)).toNat / 2 ≤ 4294966) ∧
    (s.dhcp.state.leased → s.dhcp.accepts data = some 5 → (leaseOf data).toNat / 2 ≤ 4294966)
  | (.tick, env) => s.restarts env.now .tick → env.udp.head
  | (.arp data, env) => s.restarts env.now (.arp data) → env.udp.tail.head
  | (.arpTick, _) => True

instance (s : Node) : (l : DhcpEvent × NetEnv) → Decidable (Heard s l)
  | (.recv _, _) => inferInstanceAs (Decidable (_ ∧ _))
  | (.tick, _) | (.arp _, _) => inferInstanceAs (Decidable (_ → _))
  | (.arpTick, _) => isTrue trivial

/-- What keeps the client going. -/
structure Node.Alert (s : Node) : Prop where
  inStep : s.InStep
  started : s.dhcp.state ≠ .init
  stash : s.acd.active → (leaseOf s.dhcp.ackBuf).toNat / 2 ≤ 4294966
  lease : s.dhcp.state = .bound →
    s.dhcp.t1Secs.toNat ≤ 4294966 ∧ s.dhcp.leaseSecs ≠ dhcpLeaseInfinite

theorem Dhcp.enterBound_short (h : lease.toNat / 2 ≤ 4294966) (d : Dhcp)
    (ms : BitVec 32) :
    (d.enterBound lease ms).t1Secs.toNat ≤ 4294966 ∧
      (d.enterBound lease ms).leaseSecs ≠ dhcpLeaseInfinite := by
  refine ⟨(half_toNat lease).trans_le h, ?_⟩
  rintro (rfl : lease = dhcpLeaseInfinite)
  exact absurd h (by decide)

theorem Dhcp.restarted_of_sent {ok : Bool} {xid startMs sentMs : BitVec 32}
    (h : ok = true) : (d.restarted ok xid startMs sentMs).state = .selecting := by
  rw [h]
  rfl

theorem Node.Alert.idle {a : Acd} {n : Netif} {l : List Note}
    (hi : Node.InStep ⟨d, a, n, l⟩) (hd : d.state.asking ∨ d.state.leased)
    (ha : a.active = false) : Node.Alert ⟨d, a, n, l⟩ := by
  refine ⟨hi, ?_, Acd.silent ha, ?_⟩
  · intro (h : d.state = .init)
    rw [h] at hd
    exact hd.elim Bool.noConfusion Bool.noConfusion
  · intro (h : d.state = .bound)
    rw [h] at hd
    exact hd.elim Bool.noConfusion Bool.noConfusion

theorem Node.Alert.restart {ok : Bool} {xid startMs sentMs : BitVec 32} {a : Acd}
    {n : Netif} {l : List Note}
    (hi : Node.InStep ⟨s.dhcp.restarted ok xid startMs sentMs, a, n, l⟩) (hok : ok = true)
    (ha : a.active = false) :
    Node.Alert ⟨s.dhcp.restarted ok xid startMs sentMs, a, n, l⟩ :=
  .idle hi (.inl (by rw [Dhcp.restarted_of_sent hok]; rfl)) ha

theorem Node.Alert.move {env : NetEnv} {e : DhcpEvent} (h : s.Alert)
    (hok : Heard s (e, env)) (hm : Move env.now env.udp s e s') : s'.Alert := by
  have hi := h.inStep.move hm
  cases hm with
  | stay => exact h
  | ask hs hd => exact .idle hi (.inl hd) (h.inStep.of_asking hs)
  | giveUp hs hr =>
    refine .restart hi ?_ (h.inStep.of_asking hs)
    cases e with
    | recv data => exact hok.1 hr
    | tick => exact hok hr
    | arp data => exact Acd.silent (h.inStep.of_asking hs) (of_decide_eq_true hr).1
    | arpTick => cases hr
  | refused hs ht =>
    exact .restart hi (hok.1 (decide_eq_true ⟨.inr hs, ht⟩)) (h.inStep.of_leased hs)
  | expired hs hr => exact .restart hi (hok hr) (h.inStep.of_leased hs)
  | renew hs hd => exact .idle hi (.inr hd) (h.inStep.of_bound hs)
  | renewed hs ht =>
    exact ⟨hi, fun hb => DhcpState.noConfusion hb, Acd.silent (h.inStep.of_leased hs),
      fun _ => Dhcp.enterBound_short (hok.2.2 hs ht) _ _⟩
  | acked hs ht =>
    exact ⟨hi, fun hb => DhcpState.noConfusion hb, fun _ => hok.2.1 hs ht,
      fun hb => DhcpState.noConfusion hb⟩
  | heard => exact ⟨hi, h.started, h.stash, h.lease⟩
  | @conflict data p _ _ _ _ _ hp ha hc =>
    exact .restart hi (hok (decide_eq_true ⟨ha, by rw [hp]; exact hc⟩)) rfl
  | probe ha =>
    exact ⟨hi, h.started, fun _ => h.stash ha, h.lease⟩
  | free ha =>
    exact ⟨hi, fun hb => DhcpState.noConfusion hb, fun hb => Bool.noConfusion hb,
      fun _ => Dhcp.enterBound_short (h.stash ha) _ _⟩

theorem Acted.of_note {n : Note} (h : s'.log = s.log ++ [n]) (hn : n.isMessage) : Acted s s' := by
  refine .inr ⟨n, ?_, hn⟩
  rw [h, List.drop_left]
  exact List.mem_singleton_self n

section Acts
variable {c : Dx} {now : BitVec 32}

theorem tickAsking_acts (h : dhcpTimeoutMs ≤ sinceMs now c.dhcp.sentMs) :
    Acted c.toNode (tickAsking c now).toNode := by
  unfold tickAsking
  rw [if_neg (Int.not_lt.mpr h)]
  split
  · obtain ⟨m, x, a, b, hr⟩ := dhcpRestart_toNode c
    rw [hr]
    exact .of_note rfl rfl
  · dsimp only
    split
    · obtain ⟨m, ms, hr⟩ := dhcpSendDiscover_toNode
        (c.setDhcp { c.dhcp with retries := c.dhcp.retries + 1 })
      rw [hr]
      exact .of_note rfl rfl
    · obtain ⟨m, ms, hr⟩ := dhcpSendRequest_toNode
        (c.setDhcp { c.dhcp with retries := c.dhcp.retries + 1 })
      rw [hr]
      exact .of_note rfl rfl

theorem tickBound_acts (hs : c.dhcp.state = .bound) (hf : c.dhcp.leaseSecs ≠ dhcpLeaseInfinite)
    (ht : c.dhcp.t1Secs ≤ c.dhcp.held now ∨ c.dhcp.t2Secs ≤ c.dhcp.held now) :
    Acted c.toNode (tickBound c now).toNode := by
  refine .inl fun h => ?_
  have hl := (tickBound_renews now hf ht).holds.1
  rw [h, hs] at hl
  cases hl

theorem tickLeased_ends (h : c.dhcp.leaseSecs ≤ c.dhcp.held now) :
    Acted c.toNode (tickLeased c now).toNode := by
  unfold tickLeased
  rw [if_pos h]
  obtain ⟨m, x, a, b, hr⟩ := dhcpRestart_toNode { c with netif := ⟨0, 0, 0, 0, c.netif.mac⟩ }
  rw [hr]
  exact .of_note rfl rfl

theorem tickLeased_acts (h : dhcpRenewRetryMs ≤ sinceMs now c.dhcp.sentMs) :
    Acted c.toNode (tickLeased c now).toNode := by
  by_cases he : c.dhcp.leaseSecs ≤ c.dhcp.held now
  · exact tickLeased_ends he
  · unfold tickLeased
    rw [if_neg he]
    unfold tickRenew
    generalize hc : (if c.dhcp.state = .renewing ∧ c.dhcp.t2Secs ≤ c.dhcp.held now then
      c.setDhcp { c.dhcp with state := .rebinding } else c) = c'
    have hsame : c'.dhcp.sentMs = c.dhcp.sentMs ∧ c'.log = c.log := by
      subst hc
      split <;> exact ⟨rfl, rfl⟩
    rw [if_pos (by rw [hsame.1]; exact h)]
    obtain ⟨m, ms, hr⟩ := dhcpSendRenew_toNode c'
      (if c'.dhcp.state = .renewing then c'.dhcp.serverId else broadcastIp)
    rw [hr]
    exact .of_note (congrArg (· ++ _) hsame.2) rfl

/-- A renewal tick that offers no message leaves the node as it is, or goes on to REBINDING. -/
theorem tickRenew_rests (h : ¬dhcpRenewRetryMs ≤ sinceMs now c.dhcp.sentMs) :
    tickRenew c now = c ∨ Acted c.toNode (tickRenew c now).toNode := by
  unfold tickRenew
  generalize hc : (if c.dhcp.state = .renewing ∧ c.dhcp.t2Secs ≤ c.dhcp.held now then
    c.setDhcp { c.dhcp with state := .rebinding } else c) = c'
  have h' : c'.dhcp.sentMs = c.dhcp.sentMs ∧
      (c' = c ∨ c.dhcp.state = .renewing ∧ c'.dhcp.state = .rebinding) := by
    subst hc
    split
    · rename_i hr
      exact ⟨rfl, .inr ⟨hr.1, rfl⟩⟩
    · exact ⟨rfl, .inl rfl⟩
  rw [if_neg (by rw [h'.1]; exact h)]
  refine h'.2.imp_right fun hs => .inl ?_
  rw [hs.1, hs.2]
  decide

/-- A tick that does not act leaves the node as it is. -/
theorem dhcpTick_acts : (dhcpTick c).toNode = c.toNode ∨ Acted c.toNode (dhcpTick c).toNode := by
  have key : ∀ st, c.dhcp.state = st →
      (dhcpTick c).toNode = c.later.toNode ∨ Acted c.later.toNode (dhcpTick c).toNode := by
    intro st hst
    have hl : c.later.dhcp.state = st := hst
    unfold dhcpTick
    dsimp only
    rw [hl]
    generalize c.later = c' at hl ⊢
    cases st with
    | init | probing => exact .inl rfl
    | selecting | requesting =>
      rcases Int.lt_or_le (sinceMs c.now c'.dhcp.sentMs) dhcpTimeoutMs with h | h
      · exact .inl (congrArg Dx.toNode (if_pos h))
      · exact .inr (tickAsking_acts h)
    | bound =>
      by_cases hf : c'.dhcp.leaseSecs = dhcpLeaseInfinite
      · exact .inl (congrArg Dx.toNode (if_pos hf))
      · by_cases h : c'.dhcp.t1Secs ≤ c'.dhcp.held c.now ∨ c'.dhcp.t2Secs ≤ c'.dhcp.held c.now
        · exact .inr (tickBound_acts hl hf h)
        · rw [not_or] at h
          exact .inl (congrArg Dx.toNode (tickBound_waits _ h.1 h.2))
    | renewing | rebinding =>
      by_cases h : dhcpRenewRetryMs ≤ sinceMs c.now c'.dhcp.sentMs
      · exact .inr (tickLeased_acts h)
      · by_cases he : c'.dhcp.leaseSecs ≤ c'.dhcp.held c.now
        · exact .inr (tickLeased_ends he)
        · dsimp only
          unfold tickLeased
          rw [if_neg he]
          exact (tickRenew_rests h).imp_left (congrArg Dx.toNode)
  exact key _ rfl

theorem arpTick_probes (hi : c.toNode.InStep) (ha : c.acd.active = true)
    (h : 0 ≤ sinceMs c.now c.acd.nextMs) : Acted c.toNode (arpTick c).toNode := by
  unfold arpTick
  rw [if_pos ⟨ha, h⟩]
  split
  · exact .of_note rfl rfl
  · rw [arpAcdFinish_active (c := c.later) ha]
    refine .inl fun hs => ?_
    rw [hi.mp ha] at hs
    cases hs

theorem arpTick_acts (hi : c.toNode.InStep) :
    (arpTick c).toNode = c.toNode ∨ Acted c.toNode (arpTick c).toNode := by
  by_cases h : c.acd.active = true ∧ 0 ≤ sinceMs c.now c.acd.nextMs
  · exact .inr (arpTick_probes hi h.1 h.2)
  · unfold arpTick
    rw [if_neg (show ¬(c.later.acd.active = true ∧ 0 ≤ sinceMs c.now c.later.acd.nextMs) from h)]
    exact .inl rfl

end Acts

/-- In every state that keeps the client going, some later call of the main loop makes it act. -/
theorem Node.Alert.acts (h : s.Alert) {start : Nat} {env : Nat → NetEnv}
    (ha : Regular start fun n => env (2 * n)) (hd : Regular start fun n => env (2 * n + 1)) :
    ∃ n, Acted s (s.polled env n) := by
  by_contra hnone
  rw [not_exists] at hnone
  -- as long as nothing happens the node is the same
  have hsame : ∀ n, s.polled env n = s := by
    intro n
    induction n with
    | zero => rfl
    | succ n ih =>
      have hn := hnone (n + 1)
      rw [Node.polled, ih] at hn ⊢
      split at hn
      · rename_i hpar
        rw [if_pos hpar]
        exact (arpTick_acts (c := s.with (env n)) h.inStep).resolve_right hn
      · rename_i hpar
        rw [if_neg hpar]
        exact (dhcpTick_acts (c := s.with (env n))).resolve_right hn
  have hprobe : ∀ n, ¬Acted s (s.step (.arpTick, env (2 * n))) := by
    intro n hact
    apply hnone (2 * n + 1)
    rwa [Node.polled, hsame, if_pos (by omega)]
  have htick : ∀ n, ¬Acted s (s.step (.tick, env (2 * n + 1))) := by
    intro n hact
    apply hnone (2 * n + 1 + 1)
    rwa [Node.polled, hsame, if_neg (by omega)]
  have key : ∀ st, s.dhcp.state = st → False := by
    intro st hst
    cases st with
    | init => exact h.started hst
    | selecting | requesting =>
      obtain ⟨n, h1, h2⟩ := hd.hits s.dhcp.sentMs 500 (2 ^ 31) (by omega) (by omega)
      apply htick n
      rw [tick_eq _ hst]
      refine tickAsking_acts (c := (s.with (env (2 * n + 1))).later) ?_
      rw [show (s.with (env (2 * n + 1))).later.dhcp = s.dhcp from rfl, NetEnv.now,
        sinceMs_of_lt h2, dhcpTimeoutMs]
      omega
    | probing =>
      obtain ⟨n, h1, h2⟩ := ha.hits s.acd.nextMs 0 (2 ^ 31) (by omega) (by omega)
      apply hprobe n
      refine arpTick_probes (c := s.with (env (2 * n))) h.inStep (h.inStep.mpr hst) ?_
      rw [show sinceMs (s.with (env (2 * n))).now (s.with (env (2 * n))).acd.nextMs =
        sinceMs (BitVec.ofNat 32 (env (2 * n)).clock.head) s.acd.nextMs from rfl, sinceMs_of_lt h2]
      omega
    | bound =>
      obtain ⟨hshort, hf⟩ := h.lease hst
      obtain ⟨n, h1, h2⟩ := hd.hits s.dhcp.boundMs (1000 * s.dhcp.t1Secs.toNat)
        (2 ^ 32) (by omega) le_rfl
      apply htick n
      rw [tick_eq _ hst]
      refine tickBound_acts (c := (s.with (env (2 * n + 1))).later) hst hf (.inl ?_)
      rw [show (s.with (env (2 * n + 1))).later.dhcp = s.dhcp from rfl, NetEnv.now, BitVec.le_def,
        Dhcp.held, BitVec.toNat_udiv]
      exact (Nat.le_div_iff_mul_le (by decide)).mpr (by rw [Nat.mul_comm]; exact h1)
    | renewing | rebinding =>
      obtain ⟨n, h1, h2⟩ := hd.hits s.dhcp.sentMs 10000 (2 ^ 31) (by omega) (by omega)
      apply htick n
      rw [tick_eq _ hst]
      refine tickLeased_acts (c := (s.with (env (2 * n + 1))).later) ?_
      rw [show (s.with (env (2 * n + 1))).later.dhcp = s.dhcp from rfl, NetEnv.now,
        sinceMs_of_lt h2, dhcpRenewRetryMs]
      omega
  exact key _ rfl

/-- The DISCOVER of `DhcpInit` is sent. -/
def Started (s : Node) : Prop := ∃ mac env, env.udp.head = true ∧ s = Node.start mac env

/-- In every run in which the DISCOVER of each start is sent and half of each lease is shorter
than the period of the clock, some later call of the main loop makes the client act, whatever
becomes of its messages. -/
theorem client_is_alive {s : Node} (h : (dhcpSystem.restrict Started Heard).Reachable s)
    {start : Nat} {env : Nat → NetEnv} (ha : Regular start fun n => env (2 * n))
    (hd : Regular start fun n => env (2 * n + 1)) :
    s.dhcp.state ≠ .init ∧ ∃ n, Acted s (s.polled env n) := by
  have hi : LTS.Inductive (dhcpSystem.restrict Started Heard) Node.Alert := by
    refine ⟨?_, fun hc hst => hc.move hst.2 (Node.step_move hst.1)⟩
    rintro s ⟨-, mac, env, hok, rfl⟩
    have hin := Node.InStep.start mac env
    obtain ⟨m, x, a, b, hr⟩ := Node.start_eq mac env
    rw [hr] at hin ⊢
    exact .restart hin hok rfl
  exact ⟨(hi.reachable h).started, (hi.reachable h).acts ha hd⟩

/-- The main loop comes by twice a second. -/
def evenTicks (n : Nat) : NetEnv := stillAt (500 * n)

theorem client_is_alive_exchange :
    (exchanged (exchange 9 9)).dhcp.state ≠ .init ∧
      ∃ n, Acted (exchanged (exchange 9 9)) ((exchanged (exchange 9 9)).polled evenTicks n) := by
  have hhead : ∀ n, (evenTicks n).clock.head = 500 * n := fun _ => rfl
  have hreach : (dhcpSystem.restrict Started Heard).Reachable (exchanged (exchange 9 9)) :=
    ⟨Node.start [1, 2, 3, 4, 5, 6] (stillAt 0), exchange 9 9,
      ⟨⟨_, stillAt 0, rfl⟩, _, stillAt 0, rfl, rfl⟩,
      LTS.restrict_run_of_foldlM (by decide +kernel)⟩
  have hregular : ∀ k < 2, Regular 0 fun n => evenTicks (2 * n + k) := by
    intro k hk
    refine ⟨?_, fun n => ?_, fun ms => ⟨ms, ?_⟩⟩
    all_goals
      simp only [hhead]
      omega
  exact client_is_alive hreach (hregular 0 (by decide)) (hregular 1 (by decide))

/-- A DISCOVER that cannot be sent leaves the client in INIT, where no tick does anything. -/
theorem init_is_stuck : ∃ s, dhcpSystem.Reachable s ∧ s.dhcp.state = .init ∧
    ∀ env n, s.polled env n = s := by
  refine ⟨Node.start [1, 2, 3, 4, 5, 6] ⟨Stream'.const 0, Stream'.const false⟩,
    .init ⟨_, _, rfl⟩, rfl, fun env n => ?_⟩
  induction n with
  | zero => rfl
  | succ n ih =>
    rw [Node.polled, ih]
    split <;> rfl

end Zuzu.L5
