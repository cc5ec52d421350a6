import Mathlib.Logic.Basic

/-!
# Labelled transition systems

A system is a set of initial states and a labelled step relation. `Run s ls s'`
is a finite execution, `Reachable s` says that some execution from an initial
state ends in `s`. Every safety result is an instance of `Inductive.reachable`:
an invariant that holds initially and that each step keeps holds in every
reachable state. `restrict` cuts a system down to the steps that meet a side
condition, so that "every run whose steps all meet `ok`" is a run of the
restricted system. `Refines.run` carries an execution over to a more abstract
system.
-/
namespace Zuzu.Core

/-- A labelled transition system over states `σ` and labels `ι`. -/
structure LTS (σ ι : Type*) where
  init : σ → Prop
  step : σ → ι → σ → Prop

namespace LTS
variable {σ ι : Type*} {L : LTS σ ι}
variable {start I : σ → Prop} {f : σ → ι → Option σ} {ok : σ → ι → Prop} {s s' : σ} {l : ι}
  {ls : List ι}

/-- A finite execution from `s` along `ls` to `s'`. -/
inductive Run (L : LTS σ ι) : σ → List ι → σ → Prop
  | nil (s : σ) : Run L s [] s
  | cons {s m s' : σ} {l : ι} {ls : List ι} :
      L.step s l m → Run L m ls s' → Run L s (l :: ls) s'

/-- Some execution from an initial state ends in `s`. -/
def Reachable (L : LTS σ ι) (s : σ) : Prop :=
  ∃ s₀ ls, L.init s₀ ∧ L.Run s₀ ls s

/-- The system of a partial step function: `none` means that no step is taken. -/
def ofFun (init : σ → Prop) (f : σ → ι → Option σ) : LTS σ ι :=
  ⟨init, fun s l s' => f s l = some s'⟩

/-- Executing a partial function along a list of labels is a run, if what it does are steps. -/
theorem Run.of_foldlM (hf : ∀ {s l s'}, f s l = some s' → L.step s l s') :
    ∀ {ls : List ι} {s : σ}, ls.foldlM f s = some s' → L.Run s ls s'
  | [], s, h => by
    cases h
    exact .nil _
  | l :: ls, s, h => by
    rw [List.foldlM_cons] at h
    obtain ⟨m, hm, h⟩ := Option.bind_eq_some_iff.mp h
    exact .cons (hf hm) (Run.of_foldlM hf h)

theorem run_of_foldlM {init : σ → Prop} (h : ls.foldlM f s = some s') :
    (ofFun init f).Run s ls s' := .of_foldlM id h

/-- The same for a total step function. -/
theorem run_of_foldl {init : σ → Prop} (f : σ → ι → σ) :
    ∀ (ls : List ι) (s : σ), (ofFun init fun s l => some (f s l)).Run s ls (ls.foldl f s)
  | [], s => .nil s
  | l :: ls, s => .cons rfl (run_of_foldl f ls (f s l))

/-- The steps of `L` whose source and label meet `ok`, from the initial states
that meet `start`. -/
def restrict (L : LTS σ ι) (start : σ → Prop) (ok : σ → ι → Prop) : LTS σ ι :=
  ⟨fun s => L.init s ∧ start s, fun s l s' => L.step s l s' ∧ ok s l⟩

/-- A step that is checked before it is taken. -/
theorem restrict_step {init : σ → Prop} [∀ s l, Decidable (ok s l)]
    (h : (if ok s l then f s l else none) = some s') :
    ((ofFun init f).restrict start ok).step s l s' := by
  split at h
  · exact ⟨h, ‹_›⟩
  · cases h

theorem restrict_run_of_foldlM {init : σ → Prop} [∀ s l, Decidable (ok s l)]
    (h : ls.foldlM (fun s l => if ok s l then f s l else none) s = some s') :
    ((ofFun init f).restrict start ok).Run s ls s' := .of_foldlM restrict_step h

theorem Run.append {s m s' : σ} {ls ls' : List ι} (h : L.Run s ls m) (h' : L.Run m ls' s') :
    L.Run s (ls ++ ls') s' := by
  induction h with
  | nil => exact h'
  | cons hs _ ih => exact .cons hs (ih h')

theorem Run.single (h : L.step s l s') : L.Run s [l] s' :=
  .cons h (.nil s')

/-- An execution along `ls ++ ls'` passes through a state between the two. -/
theorem Run.split {s s' : σ} : ∀ {ls ls' : List ι}, L.Run s (ls ++ ls') s' →
    ∃ m, L.Run s ls m ∧ L.Run m ls' s'
  | [], _, h => ⟨s, .nil s, h⟩
  | _ :: _, _, .cons hs ht =>
    let ⟨m, h1, h2⟩ := Run.split ht
    ⟨m, .cons hs h1, h2⟩

/-- An execution of the restricted system is one of the system itself. -/
theorem Run.of_restrict (h : (L.restrict start ok).Run s ls s') : L.Run s ls s' := by
  induction h with
  | nil => exact .nil _
  | cons hs _ ih => exact .cons hs.1 ih

/-- A restriction that every step meets is none. -/
theorem Run.restrict (hok : ∀ s l, ok s l) (h : L.Run s ls s') :
    (L.restrict start ok).Run s ls s' := by
  induction h with
  | nil => exact .nil _
  | cons hs _ ih => exact .cons ⟨hs, hok _ _⟩ ih

/-- A predicate that every step keeps is kept by every execution. -/
theorem Run.preserves (hI : ∀ {s l s'}, I s → L.step s l s' → I s') (h : L.Run s ls s') (hs : I s) :
    I s' := by
  induction h with
  | nil => exact hs
  | cons hst _ ih => exact ih (hI hs hst)

/-- A loop over a list keeps what each of its rounds keeps. -/
theorem foldlM_preserves (hI : ∀ {s l s'}, I s → f s l = some s' → I s')
    (h : ls.foldlM f s = some s') (hs : I s) : I s' :=
  have hr : (ofFun (fun _ => True) f).Run s ls s' := run_of_foldlM h
  hr.preserves hI hs

/-- Two loops whose rounds do the same as long as `I` holds. -/
theorem foldlM_agree {f g : σ → ι → Option σ}
    (hfg : ∀ {s l}, I s → f s l = g s l) (hI : ∀ {s l s'}, I s → g s l = some s' → I s') :
    ∀ (ls : List ι) {s : σ}, I s → ls.foldlM f s = ls.foldlM g s
  | [], _, _ => rfl
  | l :: ls, s, hs => by
    rw [List.foldlM_cons, List.foldlM_cons, hfg hs]
    cases hg : g s l with
    | none => rfl
    | some m => exact foldlM_agree hfg hI ls (hI hs hg)

theorem Reachable.init (h : L.init s) : L.Reachable s := ⟨s, [], h, .nil s⟩

theorem Reachable.restrict (hstart : ∀ s, start s)
    (hok : ∀ s l, ok s l) (h : L.Reachable s) : (L.restrict start ok).Reachable s := by
  obtain ⟨s₀, ls, hi, hr⟩ := h
  exact ⟨s₀, ls, ⟨hi, hstart _⟩, hr.restrict hok⟩

theorem Reachable.run (h : L.Reachable s) (hr : L.Run s ls s') : L.Reachable s' := by
  obtain ⟨s₀, ls₀, hi, h₀⟩ := h
  exact ⟨s₀, ls₀ ++ ls, hi, h₀.append hr⟩

theorem Reachable.step (h : L.Reachable s) (hs : L.step s l s') :
    L.Reachable s' := h.run (.single hs)

/-- Evaluating a list of labels shows that a state that meets `P` is reachable. -/
theorem reaches (hf : ∀ {s l s'}, f s l = some s' → L.step s l s') {s₀ : σ}
    (P : σ → Prop) [DecidablePred P] (ls : List ι) (hi : L.init s₀)
    (h : (ls.foldlM f s₀).any (fun s => decide (P s)) = true) : ∃ s, L.Reachable s ∧ P s := by
  obtain ⟨s, hs, hp⟩ := (Option.any_eq_true _ _).mp h
  exact ⟨s, ⟨s₀, ls, hi, .of_foldlM hf hs⟩, of_decide_eq_true hp⟩

theorem reaches_of_foldlM {init : σ → Prop} {s₀ : σ} (P : σ → Prop) [DecidablePred P] (ls : List ι)
    (hi : init s₀) (h : (ls.foldlM f s₀).any (fun s => decide (P s)) = true) :
    ∃ s, (ofFun init f).Reachable s ∧ P s := reaches id P ls hi h

/-- The same for the steps that meet `ok`. -/
theorem restrict_reaches_of_foldlM {init : σ → Prop} [∀ s l, Decidable (ok s l)] {s₀ : σ}
    (P : σ → Prop) [DecidablePred P] (ls : List ι) (hi : init s₀) (hst : start s₀)
    (h : (ls.foldlM (fun s l => if ok s l then f s l else none) s₀).any
      (fun s => decide (P s)) = true) :
    ∃ s, ((ofFun init f).restrict start ok).Reachable s ∧ P s :=
  reaches restrict_step P ls ⟨hi, hst⟩ h

/-- An inductive invariant: true initially, kept by every step. -/
structure Inductive (L : LTS σ ι) (I : σ → Prop) : Prop where
  init : ∀ {s}, L.init s → I s
  step : ∀ {s l s'}, I s → L.step s l s' → I s'

/-- An inductive invariant holds in every reachable state. -/
theorem Inductive.reachable (h : Inductive L I) (hs : L.Reachable s) : I s := by
  obtain ⟨s₀, ls, hi, hr⟩ := hs
  exact hr.preserves h.step (h.init hi)

/-! ## Progress -/

/-- A partial function applied `n` times. -/
def steps (f : σ → Option σ) : Nat → σ → Option σ
  | 0, s => some s
  | n + 1, s => (f s).bind (steps f n)

/-- A function that comes nearer to `Q` from every state that meets `I` gets there. -/
theorem steps_reach {f : σ → Option σ} {I Q : σ → Prop} (m : σ → Nat)
    (h : ∀ s, I s → ∃ s', f s = some s' ∧ (Q s' ∨ I s' ∧ m s' < m s)) (hs : I s) :
    ∃ n s', steps f n s = some s' ∧ Q s' := by
  induction hk : m s using Nat.strongRecOn generalizing s with
  | _ k ih =>
    obtain ⟨s', hf, hq | ⟨hi, hlt⟩⟩ := h s hs
    · exact ⟨1, s', by rw [steps, hf]; rfl, hq⟩
    · obtain ⟨n, s'', hn, hq⟩ := ih (m s') (hk ▸ hlt) hi rfl
      exact ⟨n + 1, s'', by rw [steps, hf]; exact hn, hq⟩

/-! ## Refinement -/

/-- Along `abs` and `lab`, every step of `C` from a state that meets `I` is a
step of `A`, and leads to a state that meets `I`. -/
structure Refines {τ κ : Type*} (C : LTS σ ι) (A : LTS τ κ) (I : σ → Prop) (abs : σ → τ)
    (lab : ι → κ) : Prop where
  step : ∀ {s l s'}, I s → C.step s l s' → I s' ∧ A.step (abs s) (lab l) (abs s')

/-- Executions of the refined system are executions of the abstract one. -/
theorem Refines.run {τ κ : Type*} {C : LTS σ ι} {A : LTS τ κ} {abs : σ → τ}
    {lab : ι → κ} (h : Refines C A I abs lab) (hr : C.Run s ls s')
    (hs : I s) : A.Run (abs s) (ls.map lab) (abs s') := by
  induction hr with
  | nil => exact .nil _
  | cons hst _ ih =>
    obtain ⟨hi, ha⟩ := h.step hs hst
    exact .cons ha (ih hi)

end LTS
end Zuzu.Core
