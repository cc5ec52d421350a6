import Mathlib.Data.List.Basic

/-!
# Numbers from text (`include/stdlib.c`)

`strtol` and `strtoul` skip white space, take a sign, find the base and read digits into a word
that wraps at 32 bits. A string is the list of its characters before the NUL, and a pointer into
it is what is left from there on. The base and the value of one digit are found by the same
expressions in both; the two loops are embedded one by one.

`strtoul` has a branch for a minus sign, with the comment "treat negative as unsigned wrap", and
nothing in it: the sign is skipped and the value is not negated.

Results: `strtoul_eq`: the two agree on where they stop, and on the value up to the sign.
`strtoul_agrees_iff`: which strings they agree on.
-/
namespace Zuzu.L6User.Stdlib

/-- mirrors include/stdlib.c:20-25 -/
def skipWs (s : List Char) : List Char :=
  s.dropWhile fun c =>
    c = ' ' || c = '\t' || c = '\n' || c = '\r' || c = '\x0c' || c = '\x0b'

/-- `s[0] == '0' && (s[1] == 'x' || s[1] == 'X')` -/
def hexMark (s : List Char) : Bool :=
  s[0]? = some '0' && (s[1]? = some 'x' || s[1]? = some 'X')

/-- mirrors include/stdlib.c:37-46, 83-92 -/
def detectBase (s : List Char) (base : Nat) : Nat :=
  if base = 0 then
    if s[0]? = some '0' then if hexMark s then 16 else 8
    else 10
  else base

/-- mirrors include/stdlib.c:48-49, 94-95 -/
def skipHex (s : List Char) (base : Nat) : List Char :=
  if base = 16 && hexMark s then s.drop 2 else s

/-- mirrors include/stdlib.c:55-62, 101-108 -/
def digit (c : Char) : Option Nat :=
  if '0' ≤ c && c ≤ '9' then some (c.toNat - '0'.toNat)
  else if 'a' ≤ c && c ≤ 'z' then some (c.toNat - 'a'.toNat + 10)
  else if 'A' ≤ c && c ≤ 'Z' then some (c.toNat - 'A'.toNat + 10)
  else none

/-- The loop of `strtol`. mirrors include/stdlib.c:53-67 -/
def strtolScan (base : Nat) (acc : BitVec 32) : List Char → BitVec 32 × List Char
  | [] => (acc, [])
  | c :: s =>
    match digit c with
    | none => (acc, c :: s)
    | some d =>
      if d ≥ base then (acc, c :: s)
      else strtolScan base (acc * BitVec.ofNat 32 base + BitVec.ofNat 32 d) s

/-- The loop of `strtoul`. mirrors include/stdlib.c:99-113 -/
def strtoulScan (base : Nat) (acc : BitVec 32) : List Char → BitVec 32 × List Char
  | [] => (acc, [])
  | c :: s =>
    match digit c with
    | none => (acc, c :: s)
    | some d =>
      if d ≥ base then (acc, c :: s)
      else strtoulScan base (acc * BitVec.ofNat 32 base + BitVec.ofNat 32 d) s

/-- `s == start ? nptr : s` -/
def endPtr (nptr start s : List Char) : List Char := if s.length = start.length then nptr else s

/-- The value and the end pointer. mirrors include/stdlib.c:28-72 -/
def strtol (nptr : List Char) (base : Nat) : BitVec 32 × List Char :=
  let s := skipWs nptr
  let neg := s[0]? = some '-'
  let s := if s[0]? = some '+' || s[0]? = some '-' then s.tail else s
  let base := detectBase s base
  let start := skipHex s base
  let r := strtolScan base 0 start
  (if neg then -r.1 else r.1, endPtr nptr start r.2)

/-- The value and the end pointer. mirrors include/stdlib.c:74-117 -/
def strtoul (nptr : List Char) (base : Nat) : BitVec 32 × List Char :=
  let s := skipWs nptr
  let s := if s[0]? = some '+' || s[0]? = some '-' then s.tail else s
  let base := detectBase s base
  let start := skipHex s base
  let r := strtoulScan base 0 start
  (r.1, endPtr nptr start r.2)

/-- The loop stops inside the string. -/
theorem strtolScan_suffix (base : Nat) (s : List Char) :
    ∀ acc, (strtolScan base acc s).2 <:+ s := by
  induction s with
  | nil => exact fun _ => List.suffix_rfl
  | cons c s ih =>
    intro acc
    unfold strtolScan
    split
    · exact List.suffix_rfl
    · split
      · exact List.suffix_rfl
      · exact (ih _).trans (List.suffix_cons c s)

/-- The two loops read the same digits. -/
theorem strtoulScan_eq (base : Nat) (s : List Char) :
    ∀ acc, strtoulScan base acc s = strtolScan base acc s := by
  induction s with
  | nil => exact fun _ => rfl
  | cons c s ih =>
    intro acc
    unfold strtoulScan strtolScan
    cases digit c with
    | none => rfl
    | some d =>
      dsimp only
      split
      · rfl
      · exact ih _

/-- The end pointer is the string, or an end of it. -/
theorem strtol_suffix (nptr : List Char) (base : Nat) : (strtol nptr base).2 <:+ nptr := by
  unfold strtol
  extract_lets s neg s' b start r
  have hs : s' <:+ nptr := by
    have hws : s <:+ nptr := List.dropWhile_suffix _
    dsimp only [s']
    split
    · exact (List.tail_suffix s).trans hws
    · exact hws
  have hstart : start <:+ s' := by
    dsimp only [start]
    unfold skipHex
    split
    · exact List.drop_suffix ..
    · exact List.suffix_rfl
  dsimp only
  unfold endPtr
  split
  · exact List.suffix_rfl
  · exact ((strtolScan_suffix ..).trans hstart).trans hs

/-- `strtoul` stops where `strtol` stops, inside the string. Its value is that of `strtol`, or
with a minus sign in front of the digits its negation. -/
theorem strtoul_eq (nptr : List Char) (base : Nat) :
    (strtoul nptr base).2 = (strtol nptr base).2 ∧ (strtol nptr base).2 <:+ nptr ∧
      (strtoul nptr base).1 = if (skipWs nptr)[0]? = some '-' then -(strtol nptr base).1
        else (strtol nptr base).1 := by
  unfold strtoul
  simp only [strtoulScan_eq]
  refine ⟨rfl, strtol_suffix nptr base, ?_⟩
  unfold strtol
  by_cases hsign : (skipWs nptr)[0]? = some '-'
  · simp only [hsign, if_true, BitVec.neg_neg]
  · simp only [hsign, if_false]

theorem neg_eq_self_iff (x : BitVec 32) : -x = x ↔ x = 0 ∨ x = 0x80000000#32 := by
  bv_omega

/-- The two agree exactly on the strings without a minus sign after white space, and on those
whose value is its own negation. -/
theorem strtoul_agrees_iff (nptr : List Char) (base : Nat) :
    (strtoul nptr base).1 = (strtol nptr base).1 ∧ (strtoul nptr base).2 = (strtol nptr base).2 ↔
      (skipWs nptr)[0]? ≠ some '-' ∨ (strtoul nptr base).1 = 0 ∨
        (strtoul nptr base).1 = 0x80000000#32 := by
  obtain ⟨hend, -, hval⟩ := strtoul_eq nptr base
  rw [hend]
  by_cases hsign : (skipWs nptr)[0]? = some '-'
  · rw [if_pos hsign] at hval
    have hneg : (strtol nptr base).1 = -(strtoul nptr base).1 := by
      rw [hval, BitVec.neg_neg]
    rw [hneg, eq_comm, neg_eq_self_iff]
    simp [hsign]
  · rw [if_neg hsign] at hval
    simp [hsign, hval]

/-- `-1` is minus one to `strtol` and one to `strtoul`. -/
theorem minus_one_differs : (strtol ['-', '1'] 10).1 = -1 ∧ (strtoul ['-', '1'] 10).1 = 1 ∧
    (strtoul ['-', '1'] 10).1 ≠ (strtol ['-', '1'] 10).1 := by
  decide +kernel

end Zuzu.L6User.Stdlib
