import Zuzu.Core.Crew
import Zuzu.Core.LTS
import Mathlib.Data.Fintype.Pi

/-!
# The ledger of a condition variable

What `src/include/sync/cv.c` promises, without the semaphore under it: threads draw a ticket
and enrol, a call moves the sequence number on and puts tokens down for whom it counted, and
an enrolled thread that sleeps on a current ticket takes a token to look again. The ledger
remembers of every call who was enrolled when it began and has not returned since, and how
many of its tokens are still to come.

A token is anybody's: a thread that enrols after a call may take the token the call meant for
an older thread, find its own ticket current, and sleep again. `Fair` asks that tokens go to
the oldest tickets, that the 32-bit sequence number does not come round to a ticket still
held, and that the tokens fit their counter.

**Results.** `Sound.step`: the ledger keeps its books. `Owed.step`: what a call still owes is
covered by the tokens there and to come. `Owed.not_lost`: no call is lost.
-/
namespace Zuzu.L6User
open Function Zuzu.Core

/-- Where a thread stands with the condition variable. `g` is the sequence number its ticket
was drawn at, `n` the number of the call it is making, `left` the posts still to begin. -/
inductive Mark
  | out
  | ticketed (g : Nat)
  | enrolled (g : Nat)
  | sleeping (g : Nat)
  | leaving
  | returning
  | bumped (n : Nat)
  | posting (n : Nat) (left : Nat)
  deriving DecidableEq

namespace Mark

/-- The ticket a thread may still compare with the sequence number. -/
def ticket : Mark → Option Nat
  | ticketed g | enrolled g | sleeping g => some g
  | out | leaving | returning | bumped _ | posting _ _ => none

/-- Counted in `waiters`. -/
def counted : Mark → Bool
  | enrolled _ | sleeping _ | leaving => true
  | out | ticketed _ | returning | bumped _ | posting _ _ => false

/-- Registered as a waiter and not returned. -/
def waits : Mark → Bool
  | enrolled _ | sleeping _ | leaving | returning => true
  | out | ticketed _ | bumped _ | posting _ _ => false

def sleeps : Mark → Bool
  | sleeping _ => true
  | out | ticketed _ | enrolled _ | leaving | returning | bumped _ | posting _ _ => false

/-- The ticket a thread sleeps on. -/
def bed : Mark → Option Nat
  | sleeping g => some g
  | out | ticketed _ | enrolled _ | leaving | returning | bumped _ | posting _ _ => none

def call : Mark → Option Nat
  | bumped n | posting n _ => some n
  | out | ticketed _ | enrolled _ | sleeping _ | leaving | returning => none

end Mark

/-- What is remembered of a call: whether it is a broadcast, who was enrolled when it began
and has not returned since, whether one of them has, and how many posts it has still to begin
once it has read `waiters`. -/
structure Call (ι : Type) where
  all : Bool
  awaits : ι → Bool
  answered : Bool
  left : Option Nat

/-- The state of the books. `seq` counts without bound; the code sees it modulo `2 ^ 32`. -/
structure Ledger (ι : Type) where
  seq : Nat
  waiters : Nat
  tokens : Int
  mark : ι → Mark
  calls : Nat → Call ι

inductive Entry (ι : Type)
  | draw (i : ι)
  | enrol (i : ι)
  | sleep (i : ι)
  | take (i : ι)
  | quit (i : ι)
  | resign (i : ι)
  | back (i : ι)
  | bump (i : ι) (all : Bool)
  | count (i : ι)
  | add (i : ι)
  | finish (i : ι)

def Call.returned {ι : Type} [DecidableEq ι] (c : Call ι) (i : ι) : Call ι :=
  { c with awaits := Function.update c.awaits i false, answered := c.answered || c.awaits i }

/-- How many posts a call makes once it has read `waiters`. -/
def Call.posts {ι : Type} (c : Call ι) (waiters : Nat) : Nat :=
  if c.all then waiters else if 0 < waiters then 1 else 0

namespace Ledger
variable {ι : Type} [DecidableEq ι]

def move (a : Ledger ι) (i : ι) (m : Mark) : Ledger ι :=
  { a with mark := Function.update a.mark i m }

def setLeft (a : Ledger ι) (n left : Nat) : Ledger ι :=
  { a with calls := Function.update a.calls n { a.calls n with left := some left } }

theorem setLeft_calls (a : Ledger ι) (n left m : Nat) :
    ((a.setLeft n left).calls m).all = (a.calls m).all ∧
      ((a.setLeft n left).calls m).awaits = (a.calls m).awaits ∧
      ((a.setLeft n left).calls m).answered = (a.calls m).answered := by
  unfold setLeft
  by_cases hm : m = n
  · subst hm
    simp
  · simp [hm]

def begin (a : Ledger ι) (all : Bool) : Ledger ι :=
  { a with
    seq := a.seq + 1
    calls := Function.update a.calls (a.seq + 1) ⟨all, fun j => (a.mark j).waits, false, none⟩ }

/-- What a thread may enter in the books. -/
inductive Step (a : Ledger ι) : Entry ι → Ledger ι → Prop
  | draw {i : ι} : a.mark i = .out → Step a (.draw i) (a.move i (.ticketed a.seq))
  | enrol {i : ι} {g : Nat} : a.mark i = .ticketed g →
      Step a (.enrol i) ({ a with waiters := a.waiters + 1 }.move i (.enrolled g))
  | sleep {i : ι} {g : Nat} : a.mark i = .enrolled g → a.seq % 2 ^ 32 = g % 2 ^ 32 →
      Step a (.sleep i) (a.move i (.sleeping g))
  | take {i : ι} {g : Nat} : a.mark i = .sleeping g → 0 < a.tokens →
      Step a (.take i) ({ a with tokens := a.tokens - 1 }.move i (.enrolled g))
  | quit {i : ι} {g : Nat} : a.mark i = .enrolled g → Step a (.quit i) (a.move i .leaving)
  | resign {i : ι} : a.mark i = .leaving →
      Step a (.resign i) ({ a with waiters := a.waiters - 1 }.move i .returning)
  | back {i : ι} : a.mark i = .returning →
      Step a (.back i) ({ a with calls := fun n => (a.calls n).returned i }.move i .out)
  | bump {i : ι} {all : Bool} : a.mark i = .out →
      Step a (.bump i all) ((a.begin all).move i (.bumped (a.seq + 1)))
  | count {i : ι} {n l : Nat} : a.mark i = .bumped n → l = (a.calls n).posts a.waiters →
      Step a (.count i) ((a.setLeft n l).move i (.posting n l))
  | add {i : ι} {n l : Nat} : a.mark i = .posting n (l + 1) →
      Step a (.add i) (({ a with tokens := a.tokens + 1 }.setLeft n l).move i (.posting n l))
  | finish {i : ι} {n : Nat} : a.mark i = .posting n 0 → Step a (.finish i) (a.move i .out)

/-- A token goes to nobody with a younger ticket than a sleeper's; the sequence number does
not come round to a ticket still held. -/
def Fair (a : Ledger ι) : Entry ι → Prop
  | .take i => ∀ j, ∀ g ∈ (a.mark i).bed, ∀ h ∈ (a.mark j).bed, g ≤ h
  | .bump _ _ => ∀ j, ∀ g ∈ (a.mark j).ticket, (a.seq + 1) % 2 ^ 32 ≠ g % 2 ^ 32
  | _ => True

def init : Ledger ι := ⟨0, 0, 0, fun _ => .out, fun _ => ⟨false, fun _ => false, true, none⟩⟩

variable [Fintype ι] {a a' : Ledger ι} {i : ι}

/-! ## The books -/

/-- What the ledger records is so. -/
structure Sound (a : Ledger ι) : Prop where
  ticket : ∀ i g, (a.mark i).ticket = some g → g ≤ a.seq ∧ a.seq < g + 2 ^ 32
  waiters : a.waiters = headcount a.mark Mark.counted
  asleep : ∀ i g n, a.mark i = .sleeping g → g < n → n ≤ a.seq → (a.calls n).awaits i = true
  awaits : ∀ i n, (a.calls n).awaits i = true → n ≤ a.seq ∧ (a.mark i).waits = true ∧
    ∀ g, (a.mark i).ticket = some g → g < n
  call_le : ∀ i n, (a.mark i).call = some n → n ≤ a.seq
  call_inj : ∀ i j n, (a.mark i).call = some n → (a.mark j).call = some n → i = j
  posting : ∀ i n l, a.mark i = .posting n l → (a.calls n).left = some l
  left_le : ∀ n l, (a.calls n).left = some l → n ≤ a.seq
  tokens : 0 ≤ a.tokens

theorem Sound.init : Sound (Ledger.init : Ledger ι) := by
  constructor
  case waiters => exact (headcount_eq_zero.mpr fun _ => rfl).symm
  case tokens => exact Int.le_refl 0
  all_goals
    intros
    simp_all [Ledger.init, Mark.ticket, Mark.call]

/-- What the ledger records of thread `i` is so if the thread stands at `m`. -/
structure Fits (a : Ledger ι) (i : ι) (m : Mark) : Prop where
  ticket : ∀ g, m.ticket = some g → g ≤ a.seq ∧ a.seq < g + 2 ^ 32
  asleep : ∀ g n, m = .sleeping g → g < n → n ≤ a.seq → (a.calls n).awaits i = true
  awaits : ∀ n, (a.calls n).awaits i = true → n ≤ a.seq ∧ m.waits = true ∧
    ∀ g, m.ticket = some g → g < n
  call_le : ∀ n, m.call = some n → n ≤ a.seq
  posting : ∀ n l, m = .posting n l → (a.calls n).left = some l

theorem Sound.fits (h : Sound a) (j : ι) : Fits a j (a.mark j) :=
  ⟨h.ticket j, h.asleep j, h.awaits j, h.call_le j, h.posting j⟩

/-- The sequence number stays and the thread moves to `q`: it keeps its ticket or draws the
current one, it falls asleep on the current ticket only, whoever awaits it finds it enrolled,
and it begins no call. -/
theorem Fits.move {m q : Mark} (h : Fits a i m) (hs : a'.seq = a.seq)
    (haw : ∀ n, (a'.calls n).awaits i = (a.calls n).awaits i)
    (ticket : ∀ g, q.ticket = some g → m.ticket = some g ∨ g = a.seq ∧ m.waits = false)
    (asleep : ∀ g, q = .sleeping g → g = a.seq ∨ m = .sleeping g)
    (waits : m.waits = true → q.waits = true) (call : ∀ n, q.call = some n → m.call = some n)
    (hp : ∀ n l, q = .posting n l → (a'.calls n).left = some l) : Fits a' i q := by
  refine ⟨fun g hg => ?_, fun g n hq hgn hn => ?_, fun n hn => ?_, fun n hn => ?_, hp⟩
  · rw [hs]
    rcases ticket g hg with hg | ⟨rfl, -⟩
    · exact h.ticket g hg
    · omega
  · rw [haw]
    rw [hs] at hn
    rcases asleep g hq with rfl | hm
    · omega
    · exact h.asleep g n hm hgn hn
  · rw [haw] at hn
    obtain ⟨hle, hwt, hg⟩ := h.awaits n hn
    rw [hs]
    refine ⟨hle, waits hwt, fun g hq => ?_⟩
    rcases ticket g hq with hq | ⟨-, hno⟩
    · exact hg g hq
    · exact absurd (hwt.symm.trans hno) (by decide)
  · rw [hs]
    exact h.call_le n (call n hn)

theorem Fits.congr {m : Mark} (h : Fits a i m) (hs : a'.seq = a.seq)
    (haw : ∀ n, (a'.calls n).awaits i = (a.calls n).awaits i)
    (hp : ∀ n l, m = .posting n l → (a'.calls n).left = (a.calls n).left) : Fits a' i m :=
  h.move hs haw (fun _ => .inl) (fun _ => .inr) id (fun _ => id)
    fun n l hm => (hp n l hm).trans (h.posting n l hm)

theorem Sound.moved (h : Sound a) {q : Mark} (hm : a'.mark = update a.mark i q)
    (hi : Fits a' i q) (ho : ∀ j, j ≠ i → Fits a' j (a.mark j))
    (hc : ∀ n, q.call = some n → ∀ j, j ≠ i → (a.mark j).call ≠ some n)
    (hw : a'.waiters + (a.mark i).counted.toNat = a.waiters + q.counted.toNat)
    (hl : ∀ n l, (a'.calls n).left = some l → n ≤ a'.seq) (ht : 0 ≤ a'.tokens) : Sound a' := by
  have hf : ∀ j, Fits a' j (a'.mark j) := by
    intro j
    rw [hm]
    by_cases hj : j = i
    · rw [hj, update_self]
      exact hi
    · rw [update_of_ne hj]
      exact ho j hj
  refine ⟨fun j => (hf j).ticket, ?_, fun j => (hf j).asleep, fun j => (hf j).awaits,
    fun j => (hf j).call_le, fun j k n hj hk => ?_, fun j => (hf j).posting, hl, ht⟩
  · have hcount := headcount_update a.mark i q Mark.counted
    have := h.waiters
    rw [hm]
    omega
  · rw [hm, update_apply] at hj hk
    split at hj <;> split at hk <;> rename_i hji hki
    · exact hji.trans hki.symm
    · exact absurd hk (hc n hj k hki)
    · exact absurd hj (hc n hk j hji)
    · exact h.call_inj j k n hj hk

theorem Sound.aside (h : Sound a) {q : Mark} (hs : a'.seq = a.seq)
    (hm : a'.mark = update a.mark i q) (hc : a'.calls = a.calls)
    (ticket : ∀ g, q.ticket = some g →
      (a.mark i).ticket = some g ∨ g = a.seq ∧ (a.mark i).waits = false)
    (asleep : ∀ g, q = .sleeping g → g = a.seq ∨ a.mark i = .sleeping g)
    (waits : (a.mark i).waits = true → q.waits = true) (hq : q.call = none)
    (hw : a'.waiters + (a.mark i).counted.toNat = a.waiters + q.counted.toNat)
    (ht : 0 ≤ a'.tokens) : Sound a' := by
  have hno : ∀ {P : Prop} n, q.call = some n → P := fun n hn => by
    rw [hq] at hn
    cases hn
  refine h.moved hm ?_
    (fun j _ => (h.fits j).congr hs (fun n => by rw [hc]) fun n l _ => by rw [hc])
    (fun n hn => hno n hn) hw (fun n l hn => hs ▸ h.left_le n l (hc ▸ hn)) ht
  exact (h.fits i).move hs (fun n => by rw [hc]) ticket asleep waits (fun n hn => hno n hn)
    fun n l hp => hno n (by rw [hp]; rfl)

theorem Sound.post (h : Sound a) {n l : Nat} (hi : (a.mark i).call = some n) {t : Int}
    (ht : 0 ≤ t) : Sound (({ a with tokens := t }.setLeft n l).move i (.posting n l)) := by
  have hmi : (a.mark i).counted = false ∧ (a.mark i).waits = false := by
    cases hm : a.mark i <;> simp_all [Mark.call, Mark.counted, Mark.waits]
  have haw : ∀ j m, ((({ a with tokens := t }.setLeft n l).move i (.posting n l)).calls m).awaits
      j = (a.calls m).awaits j := fun j m => congrFun (setLeft_calls _ n l m).2.1 j
  have hne : ∀ {m : Nat}, m ≠ n →
      update a.calls n { a.calls n with left := some l } m = a.calls m := fun hmn => update_of_ne hmn ..
  refine h.moved rfl ?_ (fun j hj => (h.fits j).congr rfl (haw j) fun m k hm => ?_)
    (fun m hm j hj hjm => hj (h.call_inj j i m hjm (hi.trans hm))) ?_ (fun m k hk => ?_) ht
  · refine (h.fits i).move rfl (haw i) nofun nofun (fun hw => ?_) (fun m hm => hi.trans hm)
      fun m k hp => ?_
    · exact absurd (hw.symm.trans hmi.2) (by decide)
    · cases hp
      exact congrArg Call.left (update_self n _ a.calls)
  · refine congrArg Call.left (hne fun hmn => hj (h.call_inj j i n ?_ hi))
    rw [hm, ← hmn]
    rfl
  · rw [hmi.1]
    rfl
  · change (update a.calls n _ m).left = _ at hk
    by_cases hmn : m = n
    · exact hmn ▸ h.call_le i n hi
    · rw [hne hmn] at hk
      exact h.left_le m k hk

theorem Sound.back (h : Sound a) (hi : a.mark i = .returning) :
    Sound ({ a with calls := fun n => (a.calls n).returned i }.move i .out) := by
  refine h.moved (q := .out) rfl ⟨nofun, nofun, fun n hn => ?_, nofun, nofun⟩
    (fun j hj => (h.fits j).congr rfl (fun n => update_of_ne hj ..) fun _ _ _ => rfl) nofun ?_
    (fun n l hn => h.left_le n l hn) h.tokens
  · change update (a.calls n).awaits i false i = true at hn
    rw [update_self] at hn
    cases hn
  · rw [hi]
    rfl

theorem Sound.bump (h : Sound a) (hi : a.mark i = .out) {all : Bool} (hf : Fair a (.bump i all)) :
    Sound ((a.begin all).move i (.bumped (a.seq + 1))) := by
  generalize hb : (a.begin all).move i (.bumped (a.seq + 1)) = b
  have hnew : b.calls (a.seq + 1) = ⟨all, fun j => (a.mark j).waits, false, none⟩ :=
    hb ▸ update_self ..
  have hold : ∀ n, n ≠ a.seq + 1 → b.calls n = a.calls n := fun n hn => hb ▸ update_of_ne hn ..
  have hseq : b.seq = a.seq + 1 := hb ▸ rfl
  -- the new call awaits whoever is enrolled, and no ticket is as young as the call
  have haw : ∀ j n, (b.calls n).awaits j = true → n ≤ b.seq ∧ (a.mark j).waits = true ∧
      ∀ g, (a.mark j).ticket = some g → g < n := by
    intro j n hj
    by_cases hns : n = a.seq + 1
    · rw [hns, hnew] at hj
      refine ⟨by omega, hj, fun g hg => ?_⟩
      have := h.ticket j g hg
      omega
    · rw [hold n hns] at hj
      have := h.awaits j n hj
      exact ⟨by omega, this.2⟩
  have hmark : b.mark = update a.mark i (.bumped (a.seq + 1)) := hb ▸ rfl
  refine h.moved hmark ⟨nofun, nofun, fun n hn => ?_, fun n hn => ?_, nofun⟩
    (fun j _ => ⟨fun g hg => ?_, fun g n hj hgn hn => ?_, haw j, fun n hn => ?_, fun n l hj => ?_⟩)
    (fun n hn j _ hj => ?_) ?_ (fun n l hn => ?_) (hb ▸ h.tokens)
  · have hwt := (haw i n hn).2.1
    rw [hi] at hwt
    cases hwt
  · cases hn
    exact hseq.ge
  · have hne := hf j g hg
    have := h.ticket j g hg
    omega
  · by_cases hns : n = a.seq + 1
    · rw [hns, hnew]
      change (a.mark j).waits = true
      rw [hj]
      rfl
    · rw [hold n hns]
      exact h.asleep j g n hj hgn (by omega)
  · have := h.call_le j n hn
    omega
  · have hle := h.call_le j n (by rw [hj]; rfl)
    rw [hold n (by omega)]
    exact h.posting j n l hj
  · cases hn
    have := h.call_le j _ hj
    omega
  · rw [hi, ← hb]
    rfl
  · by_cases hns : n = a.seq + 1
    · omega
    · rw [hold n hns] at hn
      have := h.left_le n l hn
      omega

/-- The books are kept by every fair entry. -/
theorem Sound.step (h : Sound a) {e : Entry ι} (hs : a.Step e a') (hf : Fair a e) : Sound a' := by
  cases hs with
  | draw hi =>
    exact h.aside rfl rfl rfl (fun g hg => .inr ⟨(Option.some.inj hg).symm, by rw [hi]; rfl⟩)
      nofun (fun hw => by rw [hi] at hw; cases hw) rfl (by rw [hi]; rfl) h.tokens
  | enrol hi =>
    exact h.aside rfl rfl rfl (fun _ hg => .inl (by rw [hi]; exact hg))
      nofun (fun _ => rfl) rfl
      (by rw [hi]; rfl) h.tokens
  | @sleep i g hi hg =>
    have hseq : g = a.seq := by
      have := h.ticket i g (by rw [hi]; rfl)
      omega
    exact h.aside rfl rfl rfl (fun _ hg => .inl (by rw [hi]; exact hg))
      (fun k hk => .inl (by cases hk; exact hseq)) (fun _ => rfl) rfl (by rw [hi]; rfl) h.tokens
  | take hi ht =>
    exact h.aside rfl rfl rfl (fun _ hg => .inl (by rw [hi]; exact hg))
      nofun (fun _ => rfl) rfl
      (by rw [hi]; rfl) (Int.sub_nonneg_of_le ht)
  | quit hi =>
    exact h.aside rfl rfl rfl nofun nofun
      (fun _ => rfl) rfl (by rw [hi]; rfl) h.tokens
  | @resign i hi =>
    have hpos : 0 < a.waiters := by
      rw [h.waiters]
      exact headcount_pos.mpr ⟨i, by rw [hi]; rfl⟩
    refine h.aside rfl rfl rfl nofun nofun
      (fun _ => rfl) rfl ?_ h.tokens
    rw [hi]
    exact Nat.sub_add_cancel hpos
  | back hi => exact h.back hi
  | bump hi => exact h.bump hi hf
  | count hi hl => exact h.post (by rw [hi]; rfl) h.tokens
  | add hi =>
    have := h.tokens
    exact h.post (by rw [hi]; rfl) (by omega)
  | finish hi =>
    exact h.aside rfl rfl rfl nofun nofun
      (fun hw => by rw [hi] at hw; cases hw) rfl
      (by rw [hi]; rfl) h.tokens

/-! ## What a call owes -/

/-- How many of those a call found enrolled are asleep. -/
def due (a : Ledger ι) (n : Nat) : Nat :=
  headcount (fun i => (a.calls n).awaits i && (a.mark i).sleeps) id

/-- A broadcast owes a token to every sleeper it found enrolled. A signal owes one as long as
all those it found enrolled are asleep. -/
def demand (a : Ledger ι) (n : Nat) : Nat :=
  if (a.calls n).all then a.due n
  else if (a.calls n).answered = false ∧ (∃ i, (a.calls n).awaits i = true) ∧
      ∀ i, (a.calls n).awaits i = true → (a.mark i).sleeps = true then 1 else 0

/-- Tokens there and to come cover what each call owes. -/
def Owed (a : Ledger ι) : Prop :=
  ∀ n l, (a.calls n).left = some l → (a.demand n : Int) ≤ a.tokens + l

theorem demand_congr {n : Nat} (hall : (a'.calls n).all = (a.calls n).all)
    (haw : (a'.calls n).awaits = (a.calls n).awaits)
    (han : (a'.calls n).answered = (a.calls n).answered)
    (hsl : ∀ j, (a.calls n).awaits j = true → (a'.mark j).sleeps = (a.mark j).sleeps) :
    a'.demand n = a.demand n := by
  have hdue : a'.due n = a.due n := by
    unfold due
    rw [haw]
    congr 1
    funext j
    cases hj : (a.calls n).awaits j with
    | false => rfl
    | true => rw [hsl j hj]
  have hiff : (∀ i, (a.calls n).awaits i = true → (a'.mark i).sleeps = true) ↔
      ∀ i, (a.calls n).awaits i = true → (a.mark i).sleeps = true :=
    forall_congr' fun j => by
      constructor
      · exact fun hj hw => hsl j hw ▸ hj hw
      · exact fun hj hw => (hsl j hw).trans (hj hw)
  unfold demand
  rw [hall, haw, han, hdue]
  simp only [hiff]

theorem demand_move {n : Nat} {q : Mark} (hmark : a'.mark = update a.mark i q)
    (hall : (a'.calls n).all = (a.calls n).all) (haw : (a'.calls n).awaits = (a.calls n).awaits)
    (han : (a'.calls n).answered = (a.calls n).answered)
    (hi : (a.calls n).awaits i = true → q.sleeps = (a.mark i).sleeps) :
    a'.demand n = a.demand n := by
  refine demand_congr hall haw han fun j hj => ?_
  rw [hmark]
  by_cases hji : j = i
  · subst hji
    rw [update_self]
    exact hi hj
  · rw [update_of_ne hji]

theorem demand_eq_zero {n : Nat}
    (h : ∀ j, (a.calls n).awaits j = true → (a.mark j).sleeps = false) : a.demand n = 0 := by
  have hdue : a.due n = 0 := headcount_eq_zero.mpr fun j => by
    cases hj : (a.calls n).awaits j with
    | false => simp [hj]
    | true => simp [h j hj]
  unfold demand
  rw [hdue]
  split
  · rfl
  · refine if_neg ?_
    rintro ⟨-, ⟨j, hj⟩, hall⟩
    exact absurd ((h j hj).symm.trans (hall j hj)) (by decide)

/-- A sleeper that a call awaits has taken a token. -/
theorem demand_take {n : Nat} {m : Mark} (hi : (a.mark i).sleeps = true) (hm : m.sleeps = false)
    (haw : (a.calls n).awaits i = true) (hc : a'.calls = a.calls)
    (hmark : a'.mark = update a.mark i m) : a'.demand n ≤ a.demand n - 1 := by
  unfold demand
  rw [hc]
  split
  · have hfun : (fun j => (a.calls n).awaits j && (a'.mark j).sleeps) =
        update (fun j => (a.calls n).awaits j && (a.mark j).sleeps) i false := by
      funext j
      rw [hmark]
      by_cases hji : j = i
      · subst hji
        simp [hm]
      · simp [update_of_ne hji]
    have hd := headcount_update (fun j => (a.calls n).awaits j && (a.mark j).sleeps) i false id
    unfold due
    rw [hc, hfun]
    simp only [haw, hi, id, Bool.and_self, Bool.toNat_true, Bool.toNat_false] at hd
    omega
  · rw [if_neg]
    · exact Nat.zero_le _
    · rintro ⟨-, -, hall⟩
      have hsl := hall i haw
      rw [hmark, update_self, hm] at hsl
      cases hsl

theorem demand_back (a : Ledger ι) (hi : a.mark i = .returning) (n : Nat) :
    ({ a with calls := fun n => (a.calls n).returned i }.move i .out).demand n ≤ a.demand n := by
  cases haw : (a.calls n).awaits i with
  | false =>
    have hup : update (a.calls n).awaits i false = (a.calls n).awaits := by
      rw [← haw]
      exact update_eq_self i _
    refine le_of_eq (demand_move rfl rfl hup ?_ fun _ => by rw [hi]; rfl)
    change ((a.calls n).answered || (a.calls n).awaits i) = _
    rw [haw, Bool.or_false]
  | true =>
    unfold demand
    change (if (a.calls n).all = true then _ else _) ≤ _
    split
    · refine Finset.card_le_card fun j hj => ?_
      simp only [Finset.mem_filter, Finset.mem_univ, true_and, id] at hj ⊢
      change (update (a.calls n).awaits i false j &&
        (update a.mark i .out j).sleeps) = true at hj
      by_cases hji : j = i
      · subst hji
        rw [update_self] at hj
        cases hj
      · rw [update_of_ne hji, update_of_ne hji] at hj
        exact hj
    · rw [if_neg]
      · exact Nat.zero_le _
      · rintro ⟨han, -⟩
        change ((a.calls n).answered || (a.calls n).awaits i) = false at han
        rw [haw, Bool.or_true] at han
        cases han

theorem Sound.demand_le_posts (h : Sound a) (n : Nat) :
    a.demand n ≤ (a.calls n).posts a.waiters := by
  have hdue : a.due n ≤ a.waiters := by
    rw [h.waiters]
    refine Finset.card_le_card fun j hj => ?_
    simp only [Finset.mem_filter, Finset.mem_univ, true_and, id, Bool.and_eq_true] at hj ⊢
    cases hm : a.mark j <;> rw [hm] at hj <;> simp_all [Mark.sleeps, Mark.counted]
  unfold demand Call.posts
  split
  · exact hdue
  · split
    · rename_i hd
      obtain ⟨-, ⟨j, hj⟩, hall⟩ := hd
      have hpos : 0 < a.due n := headcount_pos.mpr ⟨j, by simp [hj, hall j hj]⟩
      rw [if_pos (by omega)]
    · exact Nat.zero_le _

/-- A token leaves: if the sleeper that takes it is not awaited, nobody awaited sleeps. -/
theorem Owed.take (h : Owed a) (hs : Sound a) {g : Nat} (hi : a.mark i = .sleeping g)
    (ht : 0 < a.tokens) (hf : Fair a (.take i)) :
    Owed ({ a with tokens := a.tokens - 1 }.move i (.enrolled g)) := by
  intro n l hl
  change (_ : Int) ≤ a.tokens - 1 + l
  have hold := h n l hl
  cases haw : (a.calls n).awaits i with
  | true =>
    have hd : ({ a with tokens := a.tokens - 1 }.move i (.enrolled g)).demand n ≤ a.demand n - 1 :=
      demand_take (by rw [hi]; rfl) (m := .enrolled g) rfl haw rfl rfl
    omega
  | false =>
    have hng : n ≤ g := by
      by_contra hlt
      have := hs.asleep i g n hi (by omega) (hs.left_le n l hl)
      exact absurd (haw.symm.trans this) (by decide)
    rw [demand_eq_zero]
    · omega
    · intro j hj
      have hji : j ≠ i := by
        rintro rfl
        exact absurd (haw.symm.trans hj) (by decide)
      change (update a.mark i (.enrolled g) j).sleeps = false
      rw [update_of_ne hji]
      cases hm : a.mark j with
      | sleeping k =>
        have hgk := hf j g (by rw [hi]; rfl) k (by rw [hm]; rfl)
        have hkn := (hs.awaits j n hj).2.2 k (by rw [hm]; rfl)
        omega
      | _ => rfl

theorem Owed.aside (h : Owed a) {q : Mark} (hmark : a'.mark = update a.mark i q)
    (hc : a'.calls = a.calls) (ht : a'.tokens = a.tokens)
    (hi : ∀ n, (a.calls n).awaits i = true → q.sleeps = (a.mark i).sleeps) : Owed a' := by
  intro n l hl
  rw [hc] at hl
  rw [demand_move hmark (by rw [hc]) (by rw [hc]) (by rw [hc]) (hi n), ht]
  exact h n l hl

theorem Owed.post (h : Owed a) {n l : Nat} {t : Int} (hi : (a.mark i).sleeps = false)
    (ht : a.tokens ≤ t) (hn : (a.demand n : Int) ≤ t + l) :
    Owed (({ a with tokens := t }.setLeft n l).move i (.posting n l)) := by
  intro m k hk
  obtain ⟨h1, h2, h3⟩ := setLeft_calls { a with tokens := t } n l m
  have hd : (({ a with tokens := t }.setLeft n l).move i (.posting n l)).demand m = a.demand m :=
    demand_move rfl h1 h2 h3 fun _ => hi.symm
  rw [hd]
  change (update a.calls n _ m).left = some k at hk
  change (a.demand m : Int) ≤ t + k
  by_cases hm : m = n
  · subst hm
    rw [update_self] at hk
    cases hk
    exact hn
  · rw [update_of_ne hm] at hk
    have := h m k hk
    omega

theorem Owed.bump (h : Owed a) (hi : a.mark i = .out) (all : Bool) :
    Owed ((a.begin all).move i (.bumped (a.seq + 1))) := by
  intro n l hl
  change (update a.calls (a.seq + 1) _ n).left = some l at hl
  by_cases hn : n = a.seq + 1
  · subst hn
    rw [update_self] at hl
    cases hl
  · rw [update_of_ne hn] at hl
    have hc : ((a.begin all).move i (.bumped (a.seq + 1))).calls n = a.calls n :=
      update_of_ne hn ..
    rw [demand_move (a := a) rfl (by rw [hc]) (by rw [hc]) (by rw [hc]) fun _ => by rw [hi]; rfl]
    exact h n l hl

/-- What is owed stays covered by every fair entry. -/
theorem Owed.step (h : Owed a) (hs : Sound a) {e : Entry ι} (he : a.Step e a') (hf : Fair a e) :
    Owed a' := by
  cases he with
  | draw hi => exact h.aside rfl rfl rfl fun _ _ => by rw [hi]; rfl
  | enrol hi => exact h.aside rfl rfl rfl fun _ _ => by rw [hi]; rfl
  | @sleep i g hi hg =>
    refine h.aside rfl rfl rfl fun n hn => ?_
    -- a thread some call awaits has an older ticket, so it does not fall asleep again
    have hb := hs.ticket i g (by rw [hi]; rfl)
    obtain ⟨hle, -, hlt⟩ := hs.awaits i n hn
    have := hlt g (by rw [hi]; rfl)
    omega
  | take hi ht => exact h.take hs hi ht hf
  | quit hi => exact h.aside rfl rfl rfl fun _ _ => by rw [hi]; rfl
  | resign hi => exact h.aside rfl rfl rfl fun _ _ => by rw [hi]; rfl
  | back hi =>
    intro n l hl
    have hd := demand_back a hi n
    have := h n l hl
    change (_ : Int) ≤ a.tokens + l
    omega
  | bump hi => exact h.bump hi _
  | @count i n l hi hl =>
    have hd := hs.demand_le_posts n
    have ht := hs.tokens
    exact h.post (t := a.tokens) (by rw [hi]; rfl) (Int.le_refl _) (by omega)
  | @add i n l hi =>
    have hn := h n (l + 1) (hs.posting i n (l + 1) hi)
    exact h.post (by rw [hi]; rfl) (by omega) (by omega)
  | finish hi => exact h.aside rfl rfl rfl fun _ _ => by rw [hi]; rfl

theorem Owed.init : Owed (Ledger.init : Ledger ι) := nofun

/-- Call `n` is done, those it was for are all asleep and none has returned (for a broadcast:
one of them is left), and no token is there. -/
def Lost (a : Ledger ι) (n : Nat) : Prop :=
  (a.calls n).left = some 0 ∧ (∃ i, (a.calls n).awaits i = true) ∧
    ((a.calls n).all = false → (a.calls n).answered = false) ∧
    (∀ i, (a.mark i).waits = true → (a.mark i).sleeps = true) ∧ a.tokens ≤ 0

theorem Owed.not_lost (h : Owed a) (hs : Sound a) (n : Nat) : ¬ Lost a n := by
  rintro ⟨hl, ⟨i, hi⟩, han, hall, ht⟩
  have hcov := h n 0 hl
  have hsl : ∀ j, (a.calls n).awaits j = true → (a.mark j).sleeps = true :=
    fun j hj => hall j (hs.awaits j n hj).2.1
  have hpos : 0 < a.demand n := by
    unfold demand
    split
    · exact headcount_pos.mpr ⟨i, by simp [hi, hsl i hi]⟩
    · rename_i hb
      rw [if_pos ⟨han (Bool.eq_false_iff.mpr hb), ⟨i, hi⟩, hsl⟩]
      exact Nat.one_pos
  omega

end Ledger
end Zuzu.L6User
