import Zuzu.Core.LTS
import Zuzu.Types

/-!
# The bump allocator (`include/util/arena.c`)

An arena hands out a buffer from a cursor on. Both calls test sums of the cursor, the padding and
the size that are taken in 32 bits. A size so large that the sum passes `2 ^ 32` moves the cursor
back, and what is handed out next overlaps what was handed out before.

**Results.** `arena_sound`: in runs whose sums do not wrap the cursor stays in the buffer and the
blocks lie in it, aligned and apart; a call that fails changes nothing. `cursor_moves_back`: a sum
that wraps breaks it.
-/
namespace Zuzu.L6User.Bump
open Zuzu.Core

/-- A buffer does not begin at the null pointer, and one past its end is an address. -/
structure Buffer where
  base : Nat
  size : Nat
  base_pos : 0 < base
  end_lt : base + size < wordSize

/-- mirrors include/util/arena.h:22-26 -/
structure Arena where
  base : Nat
  size : Nat
  offset : Nat
  deriving DecidableEq, Repr

/-- mirrors include/util/arena.c:9-14 -/
def arenaInit (b : Buffer) : Arena := ⟨b.base, b.size, 0⟩

/-- The block, if not `NULL`. mirrors include/util/arena.c:16-23 -/
def arenaAlloc (a : Arena) (size : Nat) : Option Nat × Arena :=
  if (a.offset + size) % wordSize > a.size then (none, a)
  else (some ((a.base + a.offset) % wordSize), { a with offset := (a.offset + size) % wordSize })

/-- mirrors include/util/arena.c:27-29 -/
def Arena.pad (a : Arena) (align : Nat) : Nat :=
  let addr := (a.base + a.offset) % wordSize
  (alignUp addr align + wordSize - addr) % wordSize

/-- mirrors include/util/arena.c:25-34 -/
def arenaAllocAligned (a : Arena) (size align : Nat) : Option Nat × Arena :=
  if (a.offset + a.pad align + size) % wordSize > a.size then (none, a)
  else arenaAlloc { a with offset := (a.offset + a.pad align) % wordSize } size

/-- mirrors include/util/arena.c:36 -/
def arenaReset (a : Arena) : Arena := { a with offset := 0 }

/-- One of the two allocating calls; an alignment is a power of two. -/
structure Call where
  size : BitVec 32
  align : Option (Fin 32)
  deriving DecidableEq, Repr

def Call.pad (c : Call) (a : Arena) : Nat :=
  match c.align with
  | none => 0
  | some k => a.pad (2 ^ k.val)

def Call.run (c : Call) (a : Arena) : Option Nat × Arena :=
  match c.align with
  | none => arenaAlloc a c.size.toNat
  | some k => arenaAllocAligned a c.size.toNat (2 ^ k.val)

/-- An arena with the blocks since the last reset, the newest first, and the calls they answer. -/
structure State where
  arena : Arena
  blocks : List (Nat × Call)
  deriving DecidableEq, Repr

/-- A call, or a reset. -/
def State.step (s : State) : Option Call → Option State
  | none => some ⟨arenaReset s.arena, []⟩
  | some c => some ⟨(c.run s.arena).2, ((c.run s.arena).1.map (·, c)).toList ++ s.blocks⟩

/-- The runs of an arena over `b`. -/
def arenas (b : Buffer) : LTS State (Option Call) :=
  .ofFun (· = ⟨arenaInit b, []⟩) State.step

/-- The sum that a call tests does not pass `2 ^ 32`. -/
def NoWrap (s : State) (l : Option Call) : Prop :=
  ∀ c ∈ l, s.arena.offset + c.pad s.arena + c.size.toNat < wordSize

/-- The blocks lie in the used part of the buffer. -/
structure Sound (b : Buffer) (s : State) : Prop where
  base : s.arena.base = b.base
  size : s.arena.size = b.size
  offset : s.arena.offset ≤ b.size
  inside : ∀ x ∈ s.blocks, b.base ≤ x.1 ∧ x.1 + x.2.size.toNat ≤ b.base + s.arena.offset
  aligned : ∀ x ∈ s.blocks, ∀ k ∈ x.2.align, 2 ^ k.val ∣ x.1
  apart : s.blocks.Pairwise fun x y => y.1 + y.2.size.toNat ≤ x.1

/-! ## One call -/

variable {a : Arena} {b : Buffer} {c : Call} {s : State} {r : Option Nat × Arena} {n : Nat}

/-- Nothing happens, or the block after `pad` more bytes is handed out. -/
inductive Took (a : Arena) (c : Call) : Option Nat × Arena → Prop
  | none : Took a c (none, a)
  | some (pad : Nat) : (∀ k ∈ c.align, 2 ^ k.val ∣ a.base + a.offset + pad) →
      a.offset + pad + c.size.toNat ≤ a.size →
      Took a c (some (a.base + a.offset + pad), { a with offset := a.offset + pad + c.size.toNat })

theorem arenaAlloc_eq {o : Nat} (hb : a.base + a.size < wordSize) (h : o + n ≤ a.size) :
    arenaAlloc { a with offset := o } n = (some (a.base + o), { a with offset := o + n }) := by
  unfold arenaAlloc
  dsimp only
  rw [Nat.mod_eq_of_lt (by omega), Nat.mod_eq_of_lt (by omega), if_neg (by omega)]

/-- Rounding up reaches the next multiple, unless it passes `2 ^ 32`: the padding then leads past
the end of every buffer. -/
theorem pad_spec (h0 : 0 < a.base) (hb : a.base + a.size < wordSize) (ho : a.offset ≤ a.size)
    (k : Fin 32) : a.size < a.offset + a.pad (2 ^ k.val) ∨
      2 ^ k.val ∣ a.base + a.offset + a.pad (2 ^ k.val) := by
  have hpos : 0 < 2 ^ k.val := Nat.two_pow_pos _
  have hdvd : 2 ^ k.val ∣ wordSize := Nat.pow_dvd_pow 2 (Nat.le_of_lt k.isLt)
  have hle := Nat.le_of_dvd (by decide) hdvd
  have haddr : (a.base + a.offset) % wordSize = a.base + a.offset := Nat.mod_eq_of_lt (by omega)
  simp only [Arena.pad, alignUp, haddr]
  generalize 2 ^ k.val = m at *
  generalize hx : a.base + a.offset = x at *
  by_cases hw : x + (m - 1) < wordSize
  · have hup : (x + (m - 1)) / m * m ≤ x + (m - 1) := Nat.div_mul_le_self _ _
    have hlo := Nat.lt_div_mul_add (a := x + (m - 1)) hpos
    refine .inr ?_
    rw [Nat.mod_eq_of_lt hw, Nat.sub_add_comm (by omega), Nat.add_mod_right,
      Nat.mod_eq_of_lt (by omega), Nat.add_sub_cancel' (by omega)]
    exact Nat.dvd_mul_left m _
  · have hz : (x + (m - 1)) % wordSize / m = 0 := by
      rw [Nat.mod_eq_sub_mod (by omega), Nat.mod_eq_of_lt (by omega)]
      exact Nat.div_eq_of_lt (by omega)
    refine .inl ?_
    rw [hz, Nat.zero_mul, Nat.zero_add, Nat.mod_eq_of_lt (by omega)]
    omega

/-- What a call does whose sum does not wrap. -/
theorem Sound.took (h : Sound b s) (hw : NoWrap s (some c)) : Took s.arena c (c.run s.arena) := by
  obtain ⟨a, blocks⟩ := s
  have hw := hw c rfl
  have hbase := h.base
  have hsize := h.size
  have ho := h.offset
  have hb : a.base + a.size < wordSize := by
    rw [hbase, hsize]
    exact b.end_lt
  obtain ⟨n, align⟩ := c
  cases align with
  | none =>
    simp only [Call.run, Call.pad, Nat.add_zero] at hw ⊢
    by_cases hle : a.offset + n.toNat ≤ a.size
    · rw [show arenaAlloc a _ = _ from arenaAlloc_eq hb hle]
      exact .some 0 nofun hle
    · rw [arenaAlloc, Nat.mod_eq_of_lt hw, if_pos (Nat.not_le.mp hle)]
      exact .none
  | some k =>
    simp only [Call.run, Call.pad, arenaAllocAligned] at hw ⊢
    rw [Nat.mod_eq_of_lt hw]
    split
    · exact .none
    · rename_i hle
      have hd := (pad_spec (hbase ▸ b.base_pos) hb (hsize ▸ ho) k).resolve_left (by omega)
      rw [Nat.mod_eq_of_lt (by omega), arenaAlloc_eq hb (Nat.not_lt.mp hle), ← Nat.add_assoc]
      exact .some _ (by rintro _ ⟨⟩; exact hd) (Nat.not_lt.mp hle)

/-! ## Runs -/

theorem Sound.step (h : Sound b s) (ht : Took s.arena c r) :
    Sound b ⟨r.2, (r.1.map (·, c)).toList ++ s.blocks⟩ := by
  have hbase := h.base
  have hsize := h.size
  cases ht with
  | none => exact h
  | some pad hd hle =>
    refine ⟨hbase, hsize, hsize ▸ hle, ?_, ?_, ?_⟩
    · refine List.forall_mem_cons.mpr ⟨⟨by dsimp; omega, by dsimp; omega⟩, fun y hy => ?_⟩
      have := h.inside y hy
      dsimp
      omega
    · exact List.forall_mem_cons.mpr ⟨hd, h.aligned⟩
    · refine List.pairwise_cons.mpr ⟨fun y hy => ?_, h.apart⟩
      have := h.inside y hy
      dsimp
      omega

theorem sound : ((arenas b).restrict (fun _ => True) NoWrap).Inductive (Sound b) where
  init h := by
    obtain ⟨rfl, -⟩ := h
    exact ⟨rfl, rfl, Nat.zero_le _, nofun, nofun, .nil⟩
  step := by
    intro s l s' h ⟨hs, hw⟩
    cases l with
    | none =>
      cases hs
      exact ⟨h.base, h.size, Nat.zero_le _, nofun, nofun, .nil⟩
    | some c =>
      cases hs
      exact h.step (h.took hw)

/-- In runs whose sums do not wrap, the cursor stays in the buffer, the blocks lie in it and apart,
and a call that fails changes nothing. -/
theorem arena_sound (h : ((arenas b).restrict (fun _ => True) NoWrap).Reachable s) :
    Sound b s ∧
      ∀ c, NoWrap s (some c) → (c.run s.arena).1 = none → (c.run s.arena).2 = s.arena := by
  have hk := sound.reachable h
  refine ⟨hk, fun c hw hn => ?_⟩
  have ht := hk.took hw
  generalize c.run s.arena = r at ht hn
  cases ht with
  | none => rfl
  | some => cases hn

/-- 64 bytes at 4096. -/
def page : Buffer := ⟨4096, 64, by decide, by decide⟩

theorem arena_sound_page : Sound page ⟨⟨4096, 64, 24⟩, [(4112, ⟨8, some 4⟩), (4096, ⟨3, none⟩)]⟩ :=
  (arena_sound ⟨_, [some ⟨3, none⟩, some ⟨8, some 4⟩], ⟨rfl, trivial⟩,
    .cons ⟨rfl, by rintro _ ⟨⟩; decide⟩ (.cons ⟨rfl, by rintro _ ⟨⟩; decide⟩ (.nil _))⟩).1

/-- 16 bytes, then `2 ^ 32 - 16`: the second call succeeds with a block that is not in the buffer,
and the third gets the first block again. -/
theorem cursor_moves_back : ∃ s, (arenas page).Reachable s ∧ ¬Sound page s := by
  refine ⟨_, ⟨_, [some ⟨16, none⟩, some ⟨4294967280, none⟩, some ⟨16, none⟩], rfl,
    .cons rfl (.cons rfl (.cons rfl (.nil _)))⟩, fun h => ?_⟩
  exact absurd h.apart (by decide)

end Zuzu.L6User.Bump
