import Mathlib.Data.List.GetD
import Mathlib.Data.Nat.ModEq

/-!
# Ring buffers

A stretch of a stream kept in a buffer of fixed size: position `i` of the stream
is in cell `(b + i) % size`. Data goes in and comes out in at most two pieces,
the second one from the start of the buffer. `Holds` ties cells to positions.

**Results.** `Holds.put`: writing the bytes of some positions adds these positions
and keeps all others less than `size` away from them. `Holds.get`: reading
positions that the ring holds gives the stream.
-/
namespace Zuzu.Core.Ring
variable {α : Type*} {size b off p n : Nat} {buf : Nat → α} {data : List α} {s : Nat → α}

/-- Copy `data` to the cells from `off` on. -/
def copyIn (buf : Nat → α) (off : Nat) (data : List α) : Nat → α :=
  fun i => if off ≤ i then data.getD (i - off) (buf i) else buf i

/-- Copy `n` cells from `off` on. -/
def copyOut (buf : Nat → α) (off n : Nat) : List α := (List.range n).map fun i => buf (off + i)

/-- Write `data` from cell `off` on, around the end. -/
def put (size : Nat) (buf : Nat → α) (off : Nat) (data : List α) : Nat → α :=
  let first := min data.length (size - off)
  let buf := copyIn buf off (data.take first)
  if first < data.length then copyIn buf 0 (data.drop first) else buf

/-- Read `n` cells from `off` on, around the end. -/
def get (size : Nat) (buf : Nat → α) (off n : Nat) : List α :=
  let first := min n (size - off)
  copyOut buf off first ++ if first < n then copyOut buf 0 (n - first) else []

/-- The cells of the positions in `P` hold the stream `s`. -/
def Holds (size b : Nat) (s : Nat → α) (P : Nat → Prop) (buf : Nat → α) : Prop :=
  ∀ i, P i → buf ((b + i) % size) = s i

theorem copyIn_apply (i : Nat) : copyIn buf off data i =
    if off ≤ i ∧ i < off + data.length then data.getD (i - off) (buf i) else buf i := by
  unfold copyIn
  by_cases h : off ≤ i
  · by_cases h' : i < off + data.length
    · simp [h, h']
    · simp only [h, h', and_false, if_true, if_false]
      exact List.getD_eq_default _ _ (by omega)
  · simp [h]

/-- Cell `(off + i) % size` gets the `i`-th element. -/
theorem put_self (hoff : off < size) (hlen : data.length ≤ size) {i : Nat} (hi : i < data.length) :
    put size buf off data ((off + i) % size) = data[i] := by
  unfold put
  rcases Nat.lt_or_ge (off + i) size with h | h
  · rw [Nat.mod_eq_of_lt h]
    have hfirst : i < min data.length (size - off) := by omega
    have h1 : copyIn buf off (data.take (min data.length (size - off))) (off + i) = data[i] := by
      rw [copyIn_apply, if_pos ⟨by omega, by rw [List.length_take]; omega⟩]
      simp [List.getD_eq_getElem?_getD, List.getElem?_take, hi, hfirst]
    split
    · rw [copyIn_apply, if_neg (by rw [List.length_drop]; omega)]
      exact h1
    · exact h1
  · have hmod : (off + i) % size = off + i - size := by
      rw [Nat.mod_eq_sub_mod h, Nat.mod_eq_of_lt (by omega)]
    have hfirst : min data.length (size - off) = size - off := by omega
    rw [hmod, hfirst, if_pos (by omega), copyIn_apply,
      if_pos ⟨by omega, by rw [List.length_drop]; omega⟩]
    have hix : size - off + (off + i - size - 0) = i := by omega
    simp only [List.getD_eq_getElem?_getD, List.getElem?_drop, hix,
      List.getElem?_eq_getElem hi, Option.getD_some]

/-- The other cells keep what they have. -/
theorem put_other (hoff : off < size) (hlen : data.length ≤ size) {j : Nat} (hj : j < size)
    (h : ∀ i < data.length, (off + i) % size ≠ j) : put size buf off data j = buf j := by
  have hlow : ¬(off ≤ j ∧ j < off + data.length) := by
    rintro ⟨h1, h2⟩
    refine h (j - off) (by omega) ?_
    rw [Nat.add_sub_cancel' h1, Nat.mod_eq_of_lt hj]
  have hwrap : ¬(size - off < data.length ∧ j < data.length - (size - off)) := by
    rintro ⟨h1, h2⟩
    refine h (size - off + j) (by omega) ?_
    rw [show off + (size - off + j) = j + size by omega, Nat.add_mod_right, Nat.mod_eq_of_lt hj]
  have h1 : copyIn buf off (data.take (min data.length (size - off))) j = buf j := by
    rw [copyIn_apply, if_neg]
    rw [List.length_take]
    omega
  unfold put
  split
  · rw [copyIn_apply, if_neg, h1]
    rw [List.length_drop]
    omega
  · exact h1

/-- Two positions less than `size` apart are in different cells. -/
theorem cell_ne {i j : Nat} (hne : i ≠ j) (h1 : i < j + size) (h2 : j < i + size) :
    (b + i) % size ≠ (b + j) % size := by
  intro h
  rcases Nat.lt_or_ge i j with hij | hij
  · have hd : size ∣ j - i := by
      have := (Nat.modEq_iff_dvd' (by omega : b + i ≤ b + j)).mp h
      rwa [Nat.add_sub_add_left] at this
    have := Nat.le_of_dvd (by omega) hd
    omega
  · have hd : size ∣ i - j := by
      have := (Nat.modEq_iff_dvd' (by omega : b + j ≤ b + i)).mp h.symm
      rwa [Nat.add_sub_add_left] at this
    have := Nat.le_of_dvd (by omega) hd
    omega

theorem Holds.mono {P Q : Nat → Prop} (h : Holds size b s P buf) (hQ : ∀ i, Q i → P i) :
    Holds size b s Q buf := fun i hi => h i (hQ i hi)

/-- Data of the stream goes in at position `p`. -/
theorem Holds.put {P : Nat → Prop} (h : Holds size b s P buf) (hsize : 0 < size)
    (hlen : data.length ≤ size) (hd : ∀ i (hi : i < data.length), data[i] = s (p + i))
    (hfar : ∀ i, P i → i < p + size ∧ p + data.length ≤ i + size) :
    Holds size b s (fun i => P i ∨ p ≤ i ∧ i < p + data.length)
      (Ring.put size buf ((b + p) % size) data) := by
  have hcell : ∀ i, ((b + p) % size + i) % size = (b + (p + i)) % size := by
    intro i
    rw [Nat.mod_add_mod, Nat.add_assoc]
  intro i hi
  by_cases hin : p ≤ i ∧ i < p + data.length
  · obtain ⟨k, rfl⟩ := Nat.exists_eq_add_of_le hin.1
    rw [← hcell k, put_self (Nat.mod_lt _ hsize) hlen (by omega), hd]
  · have hP : P i := hi.resolve_right hin
    rw [put_other (Nat.mod_lt _ hsize) hlen (Nat.mod_lt _ hsize)]
    · exact h i hP
    · intro k hk
      obtain ⟨h1, h2⟩ := hfar i hP
      rw [hcell k]
      exact cell_ne (by omega) (by omega) (by omega)

@[simp] theorem length_get (size : Nat) (buf : Nat → α) (off n : Nat) :
    (get size buf off n).length = n := by
  unfold get copyOut
  dsimp only
  split
  · simp only [List.length_append, List.length_map, List.length_range]
    omega
  · simp only [List.append_nil, List.length_map, List.length_range]
    omega

/-- The cells that are read, one by one. -/
theorem get_eq (hoff : off < size) (hn : n ≤ size) :
    get size buf off n = (List.range n).map fun i => buf ((off + i) % size) := by
  unfold get copyOut
  dsimp only
  rcases Nat.lt_or_ge (size - off) n with h | h
  · obtain ⟨k, rfl⟩ := Nat.exists_eq_add_of_lt h
    have hfirst : min (size - off + k + 1) (size - off) = size - off := by omega
    rw [hfirst, if_pos h, Nat.add_assoc, List.range_add, List.map_append, List.map_map,
      Nat.add_sub_cancel_left]
    congr 1
    · refine List.map_congr_left fun i hi => ?_
      rw [Nat.mod_eq_of_lt (by have := List.mem_range.mp hi; omega)]
    · refine List.map_congr_left fun i hi => ?_
      have hi := List.mem_range.mp hi
      have hmod : (off + (size - off + i)) % size = 0 + i := by
        rw [show off + (size - off + i) = i + size by omega, Nat.add_mod_right,
          Nat.mod_eq_of_lt (by omega), Nat.zero_add]
      simp only [Function.comp_apply, hmod]
  · rw [min_eq_left h, if_neg (by omega), List.append_nil]
    refine List.map_congr_left fun i hi => ?_
    rw [Nat.mod_eq_of_lt (by have := List.mem_range.mp hi; omega)]

/-- Positions that the ring holds are read back. -/
theorem Holds.get {P : Nat → Prop} (h : Holds size b s P buf) (hsize : 0 < size) (hn : n ≤ size)
    (hP : ∀ i, p ≤ i → i < p + n → P i) :
    Ring.get size buf ((b + p) % size) n = (List.range n).map fun i => s (p + i) := by
  rw [get_eq (Nat.mod_lt _ hsize) hn]
  refine List.map_congr_left fun i hi => ?_
  have hi := List.mem_range.mp hi
  rw [Nat.mod_add_mod, Nat.add_assoc]
  exact h _ (hP _ (by omega) (by omega))

end Zuzu.Core.Ring
