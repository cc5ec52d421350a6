import Mathlib.Data.List.Nodup

/-!
# Doubly linked lists in memory

A list is threaded through its nodes by two link words, `next` and `prev`,
each read as a function of the node's address; the address `null` ends the
list in both directions. `Seg next prev p xs q` says that the nodes `xs` are
linked in order, that the first points back to `p` and the last forward to
`q`. `IsDList` is a whole list: a segment from `null` to `null` whose
addresses are distinct and none of which is `null`.

`Seg.append` splits a segment at a seam, and the `update` lemmas say which
link a write changes, so an edit is a split, a write on each side of the seam
and a join.
-/
namespace Zuzu.Core
open Function
open Function (update)

variable {α : Type*} {next prev next' prev' : α → α} {p q a b null head : α}
  {xs ys l r : List α}

/-- The nodes `xs` are linked in order between `p` and `q`. -/
def Seg (next prev : α → α) : α → List α → α → Prop
  | _, [], _ => True
  | p, a :: xs, q => prev a = p ∧ next a = xs.headD q ∧ Seg next prev a xs q

/-- A null-terminated doubly linked list with first node `head` and nodes `xs`. -/
structure IsDList (null : α) (next prev : α → α) (head : α) (xs : List α) : Prop where
  head_eq : head = xs.headD null
  nodup : xs.Nodup
  null_notMem : null ∉ xs
  seg : Seg next prev null xs null

@[simp] theorem seg_nil : Seg next prev p [] q := trivial

@[simp] theorem seg_cons :
    Seg next prev p (a :: xs) q ↔ prev a = p ∧ next a = xs.headD q ∧ Seg next prev a xs q :=
  Iff.rfl

/-- A segment is two segments that meet at the seam. -/
theorem seg_append : Seg next prev p (xs ++ ys) q ↔
    Seg next prev p xs (ys.headD q) ∧ Seg next prev (xs.getLastD p) ys q := by
  induction xs generalizing p with
  | nil => simp
  | cons a xs ih =>
    have hh : (xs ++ ys).headD q = xs.headD (ys.headD q) := by cases xs <;> rfl
    have hl : (a :: xs).getLastD p = xs.getLastD a := by cases xs <;> rfl
    simp only [List.cons_append, seg_cons, ih, hh, hl, and_assoc]

/-- Memories that agree on the nodes link them alike. -/
theorem Seg.congr (h : Seg next prev p xs q) (hn : ∀ x ∈ xs, next' x = next x)
    (hp : ∀ x ∈ xs, prev' x = prev x) : Seg next' prev' p xs q := by
  induction xs generalizing p with
  | nil => trivial
  | cons a xs ih =>
    obtain ⟨h1, h2, h3⟩ := h
    refine ⟨(hp a (by simp)).trans h1, (hn a (by simp)).trans h2, ih h3 ?_ ?_⟩
    · exact fun x hx => hn x (by simp [hx])
    · exact fun x hx => hp x (by simp [hx])

theorem IsDList.nil : IsDList null next prev null [] := ⟨rfl, List.nodup_nil, by simp, trivial⟩

/-- A list depends on the links of its own nodes only. -/
theorem IsDList.congr (h : IsDList null next prev head xs) (hn : ∀ x ∈ xs, next' x = next x)
    (hp : ∀ x ∈ xs, prev' x = prev x) : IsDList null next' prev' head xs :=
  ⟨h.head_eq, h.nodup, h.null_notMem, h.seg.congr hn hp⟩

/-- The successor of a node is null or a node. -/
theorem IsDList.next_mem (h : IsDList null next prev head xs) (ha : a ∈ xs) :
    next a = null ∨ next a ∈ xs := by
  obtain ⟨l, r, rfl⟩ := List.append_of_mem ha
  obtain ⟨-, -, hn, -⟩ := seg_append.mp h.seg
  cases r <;> simp [hn]

/-- The predecessor of a node is null or a node. -/
theorem IsDList.prev_mem (h : IsDList null next prev head xs) (ha : a ∈ xs) :
    prev a = null ∨ prev a ∈ xs := by
  obtain ⟨l, r, rfl⟩ := List.append_of_mem ha
  obtain ⟨-, hp, -, -⟩ := seg_append.mp h.seg
  rcases List.eq_nil_or_concat l with rfl | ⟨l', b, rfl⟩ <;> simp at hp <;> simp [hp]

/-! ## Singly linked lists -/

/-- A null-terminated list threaded through one link word. -/
def Thread (null : α) (next : α → α) : α → List α → Prop
  | h, [] => h = null
  | h, x :: xs => h = x ∧ x ≠ null ∧ Thread null next (next x) xs

@[simp] theorem thread_nil {h : α} : Thread null next h [] ↔ h = null := Iff.rfl

@[simp] theorem thread_cons {h x : α} :
    Thread null next h (x :: xs) ↔ h = x ∧ x ≠ null ∧ Thread null next (next x) xs := Iff.rfl

theorem Thread.eq_nil_iff {h : α} (ht : Thread null next h xs) : h = null ↔ xs = [] := by
  cases xs with
  | nil => simpa using ht
  | cons x xs =>
    obtain ⟨rfl, h0, -⟩ := ht
    simpa using h0

/-- Memories that agree on the nodes thread them alike. -/
theorem Thread.congr {h : α} (ht : Thread null next h xs) (hn : ∀ x ∈ xs, next' x = next x) :
    Thread null next' h xs := by
  induction xs generalizing h with
  | nil => exact ht
  | cons x xs ih =>
    obtain ⟨h1, h2, h3⟩ := ht
    refine ⟨h1, h2, ?_⟩
    rw [hn x (by simp)]
    exact ih h3 fun y hy => hn y (by simp [hy])

variable [DecidableEq α]

/-- Writing the forward link of a node outside the segment changes nothing. -/
theorem Seg.update_next (h : Seg next prev p xs q) (ha : a ∉ xs) :
    Seg (update next a b) prev p xs q :=
  h.congr (fun x hx => update_of_ne (fun e : x = a => ha (e ▸ hx)) b next)
    fun _ _ => rfl

/-- Writing the backward link of a node outside the segment changes nothing. -/
theorem Seg.update_prev (h : Seg next prev p xs q) (ha : a ∉ xs) :
    Seg next (update prev a b) p xs q :=
  h.congr (fun _ _ => rfl)
    fun x hx => update_of_ne (fun e : x = a => ha (e ▸ hx)) b prev

/-- Redirecting the forward link of the last node moves the end of the segment. -/
theorem Seg.redirect_last (h : Seg next prev p (xs ++ [a]) q) (ha : a ∉ xs) (q' : α) :
    Seg (update next a q') prev p (xs ++ [a]) q' := by
  obtain ⟨h1, h2⟩ := seg_append.mp h
  refine seg_append.mpr ⟨h1.update_next ha, ?_⟩
  simpa using h2.1

/-- Redirecting the backward link of the first node moves the start of the segment. -/
theorem Seg.redirect_first (h : Seg next prev p (a :: xs) q) (ha : a ∉ xs) (p' : α) :
    Seg next (update prev a p') p' (a :: xs) q :=
  ⟨by simp, h.2.1, h.2.2.update_prev ha⟩

/-! ## Edits of a whole list -/

/-- Linking `a` in before the first node. -/
theorem IsDList.push (h : IsDList null next prev head xs) (h0 : a ≠ null) (ha : a ∉ xs) :
    IsDList null (update next a head)
      (if head ≠ null then update (update prev a null) head a else update prev a null)
      a (a :: xs) := by
  obtain ⟨hh, hnd, hz, hseg⟩ := h
  refine ⟨rfl, List.nodup_cons.mpr ⟨ha, hnd⟩, by simp [hz, Ne.symm h0], ?_⟩
  cases xs with
  | nil =>
    simp only [List.headD_nil] at hh
    simp [hh]
  | cons b ys =>
    simp only [List.headD_cons] at hh
    have hb0 : b ≠ null := fun e => hz (by simp [e])
    have hba : a ≠ b := fun e => ha (by simp [e])
    obtain ⟨hby, -⟩ := List.nodup_cons.mp hnd
    -- the new node points at the old first one, whose back link now names the new node
    refine ⟨?_, ?_, ?_⟩
    · simp [hh, hb0, hba]
    · simp [hh]
    · have hseg' := (hseg.update_next ha (b := head)).update_prev ha (b := null)
      simpa [hh, hb0] using hseg'.redirect_first hby a

/-- Unlinking any node: its neighbours, or the head, skip it. -/
theorem IsDList.unlink (h : IsDList null next prev head (l ++ a :: r)) :
    IsDList null (if prev a ≠ null then update next (prev a) (next a) else next)
      (if next a ≠ null then update prev (next a) (prev a) else prev)
      (if prev a ≠ null then head else next a) (l ++ r) := by
  obtain ⟨hh, hnd, hz, hseg⟩ := h
  obtain ⟨hsl, hprev, hnext, hsr⟩ := seg_append.mp hseg
  obtain ⟨hndl, hndar, hdisj⟩ := List.nodup_append.mp hnd
  obtain ⟨har, hndr⟩ := List.nodup_cons.mp hndar
  simp only [List.mem_append, List.mem_cons, not_or] at hz
  obtain ⟨hzl, -, hzr⟩ := hz
  rw [hprev, hnext]
  -- the links of the left part, which now ends at the successor
  have hleft : Seg (if l.getLastD null ≠ null then update next (l.getLastD null) (r.headD null)
      else next) prev null l (r.headD null) ∧
      (if l.getLastD null ≠ null then head else r.headD null) = (l ++ r).headD null := by
    rcases List.eq_nil_or_concat l with rfl | ⟨l', b, rfl⟩
    · simp
    · simp only [List.concat_eq_append] at *
      have hb0 : b ≠ null := fun e => hzl (by simp [e])
      have hbl : b ∉ l' := fun hm => (List.nodup_append.mp hndl).2.2 b hm b (by simp) rfl
      have hlast : (l' ++ [b]).getLastD null = b := by simp
      rw [hlast, if_pos hb0, if_pos hb0, hh]
      exact ⟨hsl.redirect_last hbl _, by cases l' <;> simp⟩
  -- the links of the right part, which now starts at the predecessor
  have hright : Seg next (if r.headD null ≠ null then update prev (r.headD null)
      (l.getLastD null) else prev) (l.getLastD null) r null := by
    cases r with
    | nil => trivial
    | cons c r' =>
      have hc0 : c ≠ null := fun e => hzr (by simp [e])
      simpa [hc0] using hsr.redirect_first (List.nodup_cons.mp hndr).1 (l.getLastD null)
  refine ⟨hleft.2.symm ▸ rfl, ?_, ?_, seg_append.mpr ⟨?_, ?_⟩⟩
  · exact hnd.sublist (by simp)
  · simp [hzl, hzr]
  · refine hleft.1.congr (fun _ _ => rfl) fun x hx => ?_
    split
    · next hc =>
      -- the successor is not in the left part
      have hcr : r.headD null ∈ r := by cases r <;> simp at hc ⊢
      exact update_of_ne (fun e => hdisj x hx _ (List.mem_cons_of_mem _ hcr) e) _ _
    · rfl
  · refine hright.congr (fun x hx => ?_) fun _ _ => rfl
    split
    · next hc =>
      -- the predecessor is not in the right part
      have hcl : l.getLastD null ∈ l := by
        rcases List.eq_nil_or_concat l with rfl | ⟨l', b, rfl⟩ <;> simp at hc ⊢
      exact update_of_ne
        (fun e => hdisj _ hcl x (List.mem_cons_of_mem _ hx) e.symm) _ _
    · rfl

/-- Unlinking the first node. -/
theorem IsDList.pop (h : IsDList null next prev head (a :: xs)) :
    head = a ∧ IsDList null next (if next a ≠ null then update prev (next a) null else prev)
      (next a) xs := by
  have hp : prev a = null := h.seg.1
  have := IsDList.unlink (l := []) h
  rw [hp] at this
  exact ⟨h.head_eq, by simpa using this⟩

/-- Linking `a` in behind the node `b`. -/
theorem IsDList.insertAfter (h : IsDList null next prev head (l ++ b :: r)) (h0 : a ≠ null)
    (ha : a ∉ l ++ b :: r) :
    IsDList null (update (update next a (next b)) b a)
      (if next b ≠ null then update (update prev a b) (next b) a else update prev a b)
      head (l ++ b :: a :: r) := by
  obtain ⟨hh, hnd, hz, hseg⟩ := h
  obtain ⟨hsl, hprev, hnext, hsr⟩ := seg_append.mp hseg
  simp only [List.mem_append, List.mem_cons, not_or] at ha hz
  obtain ⟨hal, hab, har⟩ := ha
  obtain ⟨hzl, hzb, hzr⟩ := hz
  obtain ⟨hndl, hndbr, hdisj⟩ := List.nodup_append.mp hnd
  obtain ⟨hbr, hndr⟩ := List.nodup_cons.mp hndbr
  have hbl : b ∉ l := fun hm => hdisj b hm b List.mem_cons_self rfl
  have hrl : ∀ x ∈ r, x ∉ l := fun x hx hm => hdisj x hm x (List.mem_cons_of_mem _ hx) rfl
  rw [hnext]
  have hhead : ∀ x, x ∉ r → x ≠ null → x ≠ r.headD null := by
    intro x hx hx0 e
    cases r with
    | nil => exact hx0 e
    | cons c r => exact hx (by simp [e])
  refine ⟨?_, ?_, ?_, seg_append.mpr ⟨?_, ?_, ?_, ?_, ?_, ?_⟩⟩
  · rw [hh]
    cases l <;> rfl
  · refine List.nodup_append.mpr ⟨hndl, ?_, ?_⟩
    · simp only [List.nodup_cons, List.mem_cons, not_or]
      exact ⟨⟨Ne.symm hab, hbr⟩, har, hndr⟩
    · intro x hx y hy
      simp only [List.mem_cons] at hy
      rcases hy with rfl | rfl | hy
      · exact fun e => hbl (e ▸ hx)
      · exact fun e => hal (e ▸ hx)
      · exact fun e => hrl y hy (e ▸ hx)
  · simp only [List.mem_append, List.mem_cons, not_or]
    exact ⟨hzl, hzb, Ne.symm h0, hzr⟩
  · -- the nodes in front keep their links
    refine hsl.congr (fun x hx => ?_) fun x hx => ?_
    · rw [update_of_ne (fun e : x = b => hbl (e ▸ hx)),
        update_of_ne (fun e : x = a => hal (e ▸ hx))]
    · have hxa : x ≠ a := fun e => hal (e ▸ hx)
      split
      · rw [update_of_ne (hhead x (fun hm => hrl x hm hx) fun e => hzl (e ▸ hx)),
          update_of_ne hxa]
      · rw [update_of_ne hxa]
  · split
    · rw [update_of_ne (hhead b hbr fun e => hzb e.symm),
        update_of_ne (Ne.symm hab), hprev]
    · rw [update_of_ne (Ne.symm hab), hprev]
  · simp
  · split
    · rw [update_of_ne (hhead a har h0), update_self]
    · rw [update_self]
  · rw [update_of_ne hab, update_self]
  · -- the nodes behind it keep theirs, but for the back link of the first
    have hsr' : Seg (update (update next a (r.headD null)) b a) prev b r null :=
      hsr.congr (fun x hx => by
        rw [update_of_ne (fun e : x = b => hbr (e ▸ hx)),
          update_of_ne (fun e : x = a => har (e ▸ hx))]) fun _ _ => rfl
    cases r with
    | nil => trivial
    | cons c r =>
      have hc0 : c ≠ null := fun e => hzr (by simp [e])
      simp only [List.headD_cons, ne_eq, hc0, not_false_eq_true, if_true] at hsr' ⊢
      exact (hsr'.update_prev har).redirect_first (List.nodup_cons.mp hndr).1 a

/-- Linking `a` in behind the last node, or as the only one. -/
theorem IsDList.append (h : IsDList null next prev head xs) (h0 : a ≠ null) (ha : a ∉ xs) :
    IsDList null
      (if head ≠ null then update (update next a null) (xs.getLastD null) a else update next a null)
      (update prev a (xs.getLastD null)) (if head ≠ null then head else a) (xs ++ [a]) := by
  rcases List.eq_nil_or_concat xs with rfl | ⟨l, b, rfl⟩
  · have hh : head = null := h.head_eq
    rw [if_neg (by simp [hh]), if_neg (by simp [hh])]
    exact ⟨rfl, by simp, by simpa using Ne.symm h0, by simp⟩
  · simp only [List.concat_eq_append] at *
    have hhead : head ≠ null := by
      intro e
      have := h.head_eq
      rw [e] at this
      exact h.null_notMem (by cases l <;> simp at this ⊢ <;> simp [← this])
    have hb : next b = null := by
      have := (seg_append.mp h.seg).2
      simpa using this.2.1
    have hlast : (l ++ [b]).getLastD null = b := by simp
    have := h.insertAfter (r := []) h0 ha
    rw [if_neg (by simp [hb]), hb] at this
    rw [if_pos hhead, if_pos hhead, hlast, List.append_assoc]
    exact this

/-- Writes to nodes outside the list change nothing. -/
theorem IsDList.write (h : IsDList null next prev head xs) (ha : a ∉ xs) (x y : α) :
    IsDList null (update next a x) (update prev a y) head xs :=
  ⟨h.head_eq, h.nodup, h.null_notMem, (h.seg.update_next ha).update_prev ha⟩

/-- A new first node, whose link is set to the old one. -/
theorem Thread.push {h : α} (ht : Thread null next h xs) (h0 : a ≠ null) (ha : a ∉ xs) :
    Thread null (update next a h) a (a :: xs) := by
  refine ⟨rfl, h0, ?_⟩
  rw [update_self]
  exact ht.congr fun x hx => update_of_ne (fun e : x = a => ha (e ▸ hx)) _ _

end Zuzu.Core
