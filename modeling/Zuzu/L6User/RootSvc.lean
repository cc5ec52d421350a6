import Mathlib.Data.List.Perm.Basic
import Mathlib.Data.List.Range
import Mathlib.Data.List.TakeWhile

/-!
# The device and the name service (`user/services/rootsvc`)

Two loops that receive a call, answer it and wait again. The kernel side is what the loops see of
it: a task with a call in hand cannot receive another (`WaitOn` fails with `ERR_BUSY`), a handle
that is granted with a call or made by `HandleDuplicate` takes a free place of the table, and one
that is passed to `Reply` is copied, so that the service still has it.

Results:
* `devsvc_answers_iff`: the device service answers each call before it waits again just when every
  call asks for a device that there is. Any other call is never answered, nor is any after it.
* `nsvc_handles_iff`: the name service has one handle for each name just when no request carries a
  handle other than to be registered, and no lookup succeeds.
-/
namespace Zuzu.L6User.RootSvc

abbrev Byte := BitVec 8

/-- A 32-bit word of a message, the low byte first. -/
def word (d : List Byte) (off : Nat) : Nat :=
  ((d.drop off).take 4).foldr (fun b n => b.toNat + 256 * n) 0

/-! ## The device service -/

/-- mirrors include/dev/devm.h:20-27 -/
def devmRequest : Nat := 0
def devmMaxCompat : Nat := 8

/-- mirrors user/services/rootsvc/devsvc.c:32-45 -/
def devmStrings : Nat → List Byte → Option (List (List Byte) × List Byte)
  | 0, d => some ([], d)
  | n + 1, d =>
    let s := d.takeWhile (· ≠ 0#8)
    if d = [] ∨ s.length = d.length then none
    else (devmStrings n (d.drop (s.length + 1))).map fun r => (s :: r.1, r.2)

/-- mirrors user/services/rootsvc/devsvc.c:12-53 -/
def devmUnpack (d : List Byte) : Option (Nat × List (List Byte)) :=
  if d.length < 8 then none
  else if word d 4 = 0 ∨ devmMaxCompat < word d 4 then none
  else
    match devmStrings (word d 4) (d.drop 8) with
    | some (strings, []) => some (word d 0, strings)
    | _ => none

/-- The state of the loop: whether a call is in hand, how many were received and which were
answered, with the device. -/
structure DevSvc where
  busy : Bool := false
  taken : Nat := 0
  answers : List (Nat × Nat) := []

/-- A call, with the handle that `HandleDuplicate` would give for its answer. -/
structure DevCall where
  data : List Byte
  dup : Option Nat

/-- The first device that has one of the names. mirrors user/services/rootsvc/devsvc.c:77-88 -/
def findDevice (devs : List (List Byte)) (names : List (List Byte)) : Option Nat :=
  names.findSome? fun n => devs.findIdx? (· = n)

/-- One round of the loop. A service that keeps its reply object is `busy` from then on: that the
caller's timeout or death clears it (kernel/task/task.c:295-297, 326-327) is left out.
mirrors user/services/rootsvc/devsvc.c:64-101 and kernel/ipc/msg.c:230 -/
def DevSvc.step (devs : List (List Byte)) (s : DevSvc) (m : DevCall) : DevSvc :=
  if s.busy then s
  else
    let s := { s with busy := true, taken := s.taken + 1 }
    match devmUnpack m.data with
    | none => s
    | some (cmd, strings) =>
      if cmd = devmRequest then
        match findDevice devs strings, m.dup with
        | some d, some _ => { s with busy := false, answers := s.answers ++ [(s.taken - 1, d)] }
        | _, _ => s
      else s

/-- A request for a device that there is, of which a handle can be made. -/
def Servable (devs : List (List Byte)) (m : DevCall) : Prop :=
  8 ≤ m.data.length ∧ word m.data 0 = devmRequest ∧ m.dup ≠ none ∧
    ∃ names : List (List Byte), names.length = word m.data 4 ∧
      0 < names.length ∧ names.length ≤ devmMaxCompat ∧ (∀ n ∈ names, 0#8 ∉ n) ∧
      m.data.drop 8 = names.flatMap (· ++ [0#8]) ∧ ∃ n ∈ names, n ∈ devs

theorem devmStrings_eq_some {n : Nat} {d : List Byte} {names : List (List Byte)} :
    devmStrings n d = some (names, []) ↔
      names.length = n ∧ (∀ s ∈ names, 0#8 ∉ s) ∧ d = names.flatMap (· ++ [0#8]) := by
  induction n generalizing d names with
  | zero =>
    simp only [devmStrings, Option.some.injEq, Prod.mk.injEq, List.length_eq_zero_iff]
    constructor
    · rintro ⟨rfl, rfl⟩; simp
    · rintro ⟨rfl, -, h⟩; simpa using h
  | succ n ih =>
    have hw : ∀ {s r : List Byte}, 0#8 ∉ s → (s ++ 0#8 :: r).takeWhile (· ≠ 0#8) = s := by
      intro s r hs
      rw [List.takeWhile_append_of_pos fun x hx => by simpa using fun e : x = 0#8 => hs (e ▸ hx)]
      simp
    rw [devmStrings]
    constructor
    · intro h
      split at h
      · simp at h
      rename_i hd
      obtain ⟨⟨names', rest⟩, hr, he⟩ := Option.map_eq_some_iff.mp h
      obtain ⟨rfl, rfl⟩ := Prod.mk.inj he
      obtain ⟨h1, h2, h3⟩ := ih.mp hr
      by_cases h0 : 0#8 ∈ d
      · obtain ⟨s, r, rfl, hs⟩ := List.eq_append_cons_of_mem h0
        rw [hw hs, List.drop_length_add_append] at h3
        rw [hw hs]
        simp at h3
        exact ⟨by simp [h1], by simpa [hs] using h2, by simp [h3]⟩
      · refine absurd (congrArg List.length ?_) (not_or.mp hd).2
        exact List.takeWhile_eq_self_iff.mpr fun x hx => by simpa using fun e : x = 0#8 => h0 (e ▸ hx)
    · rintro ⟨hl, hz, rfl⟩
      obtain ⟨s, names, rfl⟩ := List.exists_cons_of_length_eq_add_one hl
      have hs := hz s (by simp)
      have hrest := ih.mpr ⟨Nat.succ.inj hl, fun t ht => hz t (by simp [ht]), rfl⟩
      simp only [List.flatMap_cons, List.append_assoc, List.singleton_append, hw hs]
      rw [if_neg (by simp), List.drop_length_add_append]
      simp [hrest]

theorem findDevice_isSome {devs names : List (List Byte)} :
    (findDevice devs names).isSome ↔ ∃ n ∈ names, n ∈ devs := by
  simp [findDevice, List.findSome?_isSome_iff]

/-- A call is answered just when it can be. -/
theorem DevSvc.step_idle (devs : List (List Byte)) {s : DevSvc} (m : DevCall) (h : s.busy = false) :
    (Servable devs m ∧ ∃ d, s.step devs m =
      { s with taken := s.taken + 1, answers := s.answers ++ [(s.taken, d)] }) ∨
    (¬Servable devs m ∧ (s.step devs m).busy = true) := by
  unfold step
  rw [if_neg (by simp [h])]
  by_cases hm : Servable devs m
  · refine .inl ⟨hm, ?_⟩
    obtain ⟨h8, h0, hdup, names, hn, hpos, hmax, hz, hd, hf⟩ := hm
    obtain ⟨d, hdev⟩ := Option.isSome_iff_exists.mp (findDevice_isSome.mpr hf)
    obtain ⟨x, hx⟩ := Option.ne_none_iff_exists'.mp hdup
    have hu : devmUnpack m.data = some (devmRequest, names) := by
      unfold devmUnpack
      rw [if_neg (by omega), if_neg (by omega), devmStrings_eq_some.mpr ⟨hn, hz, hd⟩, h0]
    exact ⟨d, by simp [hu, hdev, hx, h]⟩
  · refine .inr ⟨hm, ?_⟩
    split
    · rfl
    · rename_i cmd names hu
      unfold devmUnpack at hu
      split at hu
      · simp at hu
      split at hu
      · simp at hu
      split at hu
      · rename_i h8 hc _ strings hst
        obtain ⟨rfl, rfl⟩ := Prod.mk.inj (Option.some.inj hu)
        obtain ⟨hl, hz, hd⟩ := devmStrings_eq_some.mp hst
        split
        · rename_i h0
          split
          · rename_i d x hdev hx
            exact absurd ⟨by omega, h0, by simp [hx], strings, hl, by omega, by omega, hz, hd,
              findDevice_isSome.mp (by simp [hdev])⟩ hm
          · rfl
        · rfl
      · simp at hu

theorem DevSvc.step_busy {devs : List (List Byte)} {s : DevSvc} (h : s.busy = true) (ms : List DevCall) :
    ms.foldl (step devs) s = s := by
  induction ms with
  | nil => rfl
  | cons m ms ih => rw [List.foldl_cons, show s.step devs m = s by simp [step, h], ih]

/-- Nothing is in hand, and the calls were answered one by one. -/
def DevSvc.Answered (s : DevSvc) (n : Nat) : Prop :=
  s.busy = false ∧ s.taken = n ∧ s.answers.map Prod.fst = List.range n

/-- After any calls: each was answered once before the next was received, just when each can be. A
call that cannot stays in hand, and every later `WaitOn` fails. -/
theorem devsvc_answers_iff (devs : List (List Byte)) (ms : List DevCall) :
    (ms.foldl (DevSvc.step devs) {}).Answered ms.length ↔ ∀ m ∈ ms, Servable devs m := by
  have hrun : ∀ (ms : List DevCall) (s : DevSvc) (n : Nat), s.Answered n →
      ((ms.foldl (DevSvc.step devs) s).Answered (n + ms.length) ↔ ∀ m ∈ ms, Servable devs m) := by
    intro ms
    induction ms with
    | nil => intro s n h; simpa using h
    | cons m ms ih =>
      intro s n h
      obtain ⟨hb, ht, ha⟩ := h
      rw [List.foldl_cons]
      rcases DevSvc.step_idle devs m hb with ⟨hm, d, hs⟩ | ⟨hm, hs⟩
      · have hn : (s.step devs m).Answered (n + 1) := by
          rw [hs]; exact ⟨hb, by simp [ht], by simp [ha, ht, List.range_succ]⟩
        have := ih _ _ hn
        rw [List.length_cons, show n + (ms.length + 1) = n + 1 + ms.length by omega, this]
        simp [hm]
      · rw [DevSvc.step_busy hs]
        exact ⟨fun h => by simp [h.1] at hs, fun h => absurd (h m (by simp)) hm⟩
  simpa using hrun ms {} 0 ⟨rfl, rfl, rfl⟩

/-- A request for a device with the name `a`, and one that is too short: it is not answered, and the
service receives nothing any more. -/
theorem devsvc_short_request :
    let devs := [[97#8]]
    let good : DevCall := ⟨[0, 0, 0, 0, 1, 0, 0, 0, 97, 0], some 5⟩
    ([good].foldl (DevSvc.step devs) {}).answers = [(0, 0)] ∧
    ([good, ⟨[], none⟩, good, good].foldl (DevSvc.step devs) {}).busy = true ∧
    ([good, ⟨[], none⟩, good, good].foldl (DevSvc.step devs) {}).answers = [(0, 0)] := by
  decide

/-! ## The name service -/

/-- mirrors include/zuzu/service.h:25-32 and user/services/rootsvc/nsvc.c:14 -/
def nsMaxPath : Nat := 64
def nsRegister : Nat := 1
def nsLookup : Nat := 2
def nsBuckets : Nat := 64

/-- mirrors user/services/rootsvc/nsvc.c:16-20 -/
structure NsEntry where
  path : List Byte
  handle : Nat

/-- The table of names, and the handles that were received or duplicated and are still held. -/
structure Nsvc where
  buckets : Nat → List NsEntry := fun _ => []
  held : List Nat := []

/-- A request with the handle that came with it, whether there is memory for a new name, and the
handle that `HandleDuplicate` would give. -/
structure NsCall where
  data : List Byte
  granted : Option Nat
  memory : Bool
  dup : Option Nat

/-- mirrors include/util/fnv1a.h:20-28 and user/services/rootsvc/nsvc.c:24 -/
def bucket (path : List Byte) : Nat :=
  (path.foldl (fun h b => (h ^^^ b.setWidth 32) * 0x01000193#32) 0x811c9dc5#32).toNat % nsBuckets

/-- mirrors user/services/rootsvc/nsvc.c:35-56 -/
def nsvcUnpack (d : List Byte) : Option (Nat × List Byte) :=
  let path := (d.drop 4).takeWhile (· ≠ 0#8)
  if d.length < 4 ∨ d.length ≤ 4 ∨ path.length = (d.drop 4).length ∨ nsMaxPath ≤ path.length then none
  else some (word d 0, path)

namespace Nsvc

/-- mirrors user/services/rootsvc/nsvc.c:26-33 -/
def nsFind (s : Nsvc) (path : List Byte) : Option NsEntry :=
  (s.buckets (bucket path)).find? (·.path = path)

def setBucket (s : Nsvc) (path : List Byte) (es : List NsEntry) : Nsvc :=
  { s with buckets := Function.update s.buckets (bucket path) es }

def handleClose (s : Nsvc) (h : Nat) : Nsvc := { s with held := s.held.erase h }

/-- The found entry gets another handle. -/
def setHandle (path : List Byte) (h : Nat) : List NsEntry → List NsEntry
  | [] => []
  | e :: es => if e.path = path then ⟨e.path, h⟩ :: es else e :: setHandle path h es

/-- mirrors user/services/rootsvc/nsvc.c:70-95 -/
def nsvcRegister (s : Nsvc) (path : List Byte) (r : NsCall) : Nsvc :=
  match r.granted with
  | none => s
  | some g =>
    match s.nsFind path with
    | some e => (s.handleClose e.handle).setBucket path (setHandle path g (s.buckets (bucket path)))
    | none =>
      if r.memory then s.setBucket path (⟨path, g⟩ :: s.buckets (bucket path)) else s.handleClose g

/-- mirrors user/services/rootsvc/nsvc.c:97-109 -/
def nsvcLookup (s : Nsvc) (path : List Byte) (r : NsCall) : Nsvc :=
  match s.nsFind path, r.dup with
  | some _, some h => { s with held := h :: s.held }
  | _, _ => s

/-- One round of the loop. mirrors user/services/rootsvc/nsvc.c:111-137 -/
def step (s : Nsvc) (r : NsCall) : Nsvc :=
  let s := { s with held := r.granted.toList ++ s.held }
  match nsvcUnpack r.data with
  | none => s
  | some (cmd, path) =>
    if cmd = nsRegister then s.nsvcRegister path r
    else if cmd = nsLookup then s.nsvcLookup path r
    else s

/-- The handles of the registered names. -/
def handles (s : Nsvc) : List Nat :=
  (List.range nsBuckets).flatMap fun b => (s.buckets b).map NsEntry.handle

/-- A handle comes only to be registered, and no name that is looked up has been registered. -/
def Clean (s : Nsvc) (r : NsCall) : Prop :=
  match nsvcUnpack r.data with
  | none => r.granted = none
  | some (cmd, path) =>
    cmd = nsRegister ∨ r.granted = none ∧ (cmd = nsLookup → s.nsFind path = none ∨ r.dup = none)

def CleanRun (s : Nsvc) : List NsCall → Prop
  | [] => True
  | r :: rs => s.Clean r ∧ (s.step r).CleanRun rs

variable {s : Nsvc} {leak : List Nat} {r : NsCall} {path : List Byte}

/-- The handles of one bucket, and those of the others. -/
theorem handles_setBucket (s : Nsvc) (path : List Byte) : ∃ rest, ∀ es,
    (s.setBucket path es).handles.Perm (es.map NsEntry.handle ++ rest) := by
  have hb : bucket path ∈ List.range nsBuckets := List.mem_range.mpr (Nat.mod_lt _ (by decide))
  refine ⟨((List.range nsBuckets).erase (bucket path)).flatMap fun b =>
    (s.buckets b).map NsEntry.handle, fun es => ?_⟩
  refine ((List.perm_cons_erase hb).flatMap_right _).trans ?_
  rw [List.flatMap_cons]
  simp only [setBucket, Function.update_self]
  refine .append_left _ (.of_eq (List.flatMap_congr fun b hm => ?_))
  have : b ≠ bucket path := fun e => (List.nodup_range.not_mem_erase) (e ▸ hm)
  simp [this]

theorem setBucket_self (s : Nsvc) (path : List Byte) :
    s.setBucket path (s.buckets (bucket path)) = s := by
  simp [setBucket]

theorem setHandle_eq {es : List NsEntry} {e : NsEntry} (h : es.find? (·.path = path) = some e)
    (g : Nat) : ∃ l l', es = l ++ e :: l' ∧ setHandle path g es = l ++ ⟨e.path, g⟩ :: l' := by
  induction es with
  | nil => simp at h
  | cons x es ih =>
    by_cases hx : x.path = path
    · simp only [List.find?_cons, hx, decide_true, Option.some.injEq] at h
      exact ⟨[], es, by simp [h], by simp [setHandle, hx, ← h]⟩
    · simp only [List.find?_cons, hx, decide_false] at h
      obtain ⟨l, l', rfl, h2⟩ := ih h
      exact ⟨x :: l, l', rfl, by simp [setHandle, hx, h2]⟩

/-- A request that is not clean leaves one handle more behind. -/
theorem step_leak (h : s.held.Perm (s.handles ++ leak)) (r : NsCall) :
    ∃ leak', (s.step r).held.Perm ((s.step r).handles ++ leak') ∧
      (s.Clean r ∧ leak'.length = leak.length ∨ ¬s.Clean r ∧ leak.length < leak'.length) := by
  have hgrant : (r.granted.toList ++ s.held).Perm (s.handles ++ (r.granted.toList ++ leak)) :=
    (h.append_left _).trans (by
      rw [← List.append_assoc, ← List.append_assoc]
      exact List.perm_append_comm.append_right _)
  unfold step Clean
  split
  · refine ⟨_, hgrant, ?_⟩
    cases r.granted <;> simp
  · rename_i cmd path hu
    by_cases h1 : cmd = nsRegister
    · rw [if_pos h1]
      simp only [h1, true_or, true_and, not_true, false_and, or_false]
      unfold nsvcRegister
      obtain ⟨rest, hrest⟩ := handles_setBucket s path
      have hself := hrest (s.buckets (bucket path))
      rw [setBucket_self] at hself
      split
      · rename_i hg; exact ⟨leak, by simpa [hg] using h, rfl⟩
      · rename_i g hg
        split
        · rename_i e he
          obtain ⟨l, l', hes, hset⟩ := setHandle_eq he g
          refine ⟨leak, ?_, rfl⟩
          have hold := h.trans (hself.append_right leak)
          rw [hes] at hold
          refine List.Perm.trans ?_ ((hrest _).append_right leak).symm
          simp only [handleClose, setBucket, hg, Option.toList_some, List.singleton_append, hset]
          refine ((hold.cons g).erase e.handle).trans ?_
          simp only [List.map_append, List.map_cons, List.append_assoc, List.cons_append]
          refine (((List.perm_middle.cons g).trans (.swap ..)).erase e.handle).trans ?_
          rw [List.erase_cons_head]
          exact List.perm_middle.symm
        · split
          · refine ⟨leak, ?_, rfl⟩
            refine List.Perm.trans ?_ ((hrest _).append_right leak).symm
            simpa [hg, setBucket] using h.trans (hself.append_right leak)
          · exact ⟨leak, by simpa [handleClose, hg] using h, rfl⟩
    · rw [if_neg h1]
      simp only [h1, false_or]
      split
      · rename_i h2
        unfold nsvcLookup
        split
        · rename_i e d he hd
          refine ⟨d :: (r.granted.toList ++ leak), (hgrant.cons d).trans List.perm_middle.symm, .inr ?_⟩
          have he : s.nsFind path = some e := he
          simp [he, hd]; omega
        · rename_i hno
          refine ⟨_, hgrant, ?_⟩
          have hno : s.nsFind path = none ∨ r.dup = none := by
            by_contra hc
            rw [not_or] at hc
            obtain ⟨e, he⟩ := Option.ne_none_iff_exists'.mp hc.1
            obtain ⟨d, hd⟩ := Option.ne_none_iff_exists'.mp hc.2
            exact hno e d he hd
          cases r.granted <;> simp [hno]
      · rename_i h2
        refine ⟨_, hgrant, ?_⟩
        cases r.granted <;> simp [h2]

end Nsvc

/-- After any requests the service holds as many handles as there are names just when all requests
were clean: a handle that is left behind stays. -/
theorem nsvc_handles_iff (rs : List NsCall) :
    (rs.foldl Nsvc.step {}).held.length = (rs.foldl Nsvc.step {}).handles.length ↔
      Nsvc.CleanRun {} rs := by
  have hrun : ∀ (rs : List NsCall) (s : Nsvc) (leak : List Nat), s.held.Perm (s.handles ++ leak) →
      ((rs.foldl Nsvc.step s).held.length = (rs.foldl Nsvc.step s).handles.length ↔
        leak = [] ∧ s.CleanRun rs) := by
    intro rs
    induction rs with
    | nil =>
      intro s leak h
      have := h.length_eq
      rw [List.length_append] at this
      simp only [List.foldl_nil, Nsvc.CleanRun, and_true, ← List.length_eq_zero_iff]
      omega
    | cons r rs ih =>
      intro s leak h
      obtain ⟨leak', h', hl⟩ := Nsvc.step_leak h r
      rw [List.foldl_cons, ih _ _ h', Nsvc.CleanRun]
      simp only [← List.length_eq_zero_iff]
      rcases hl with ⟨hc, hl⟩ | ⟨hc, hl⟩
      · simp [hc, hl]
      · exact ⟨fun h => absurd h.1 (by omega), fun h => absurd h.2.1 hc⟩
  simpa using hrun rs {} [] (by simp [Nsvc.handles])

/-- A name is registered and looked up twice: the handles that were made for the answers stay. -/
theorem nsvc_lookup_leaks :
    let call (cmd : Byte) : NsCall := ⟨[cmd, 0, 0, 0, 97, 0], if cmd = 1 then some 5 else none, true, some 6⟩
    let s := [call 1, call 2, call 2].foldl Nsvc.step {}
    s.held.length = 3 ∧ s.handles.length = 1 := by
  decide +kernel

end Zuzu.L6User.RootSvc
