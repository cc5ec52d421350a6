import Mathlib.Algebra.Group.Nat.Defs
import Mathlib.Data.Nat.Basic

/-!
# Kernel base types

Status codes (`include/zuzu/err.h`), page arithmetic (`kernel/mm/pmm/pmm.h`),
the alignment helpers (`include/string.h`) and the attributes of mappings
(`kernel/mm/vmm/vmm.h`). Addresses and sizes are 32 bits
wide in the kernel; they are `Nat` here, with the wrap at `2^32` written out
where an expression can pass it.
-/
namespace Zuzu

/-- mirrors include/zuzu/err.h -/
inductive Err
  | ok | noPerm | noEnt | busy | noMem | badType | badArg | noSys | badPtr | dead | timeout
  | overflow | badHandle
  deriving DecidableEq, Repr

/-- A failed `assert` stops the kernel (`core/panic.h`): the computation ends without a state. -/
def kassert (c : Prop) [Decidable c] {α : Type*} (k : Option α) : Option α :=
  if c then k else none

theorem kassert_eq_some {c : Prop} [Decidable c] {α : Type*} {k : Option α} {a : α} :
    kassert c k = some a ↔ c ∧ k = some a := by
  unfold kassert
  split <;> simp_all

@[simp] theorem kassert_pos {c : Prop} [Decidable c] {α : Type*} {k : Option α} (h : c) :
    kassert c k = k := if_pos h

/-- The integer a status is returned as. -/
def Err.code : Err → Int
  | .ok => 0
  | .noPerm => -1
  | .noEnt => -2
  | .busy => -3
  | .noMem => -4
  | .badType => -5
  | .badArg => -6
  | .noSys => -7
  | .badPtr => -8
  | .dead => -9
  | .timeout => -10
  | .overflow => -11
  | .badHandle => -12

/-- Range of a 32-bit machine word. -/
def wordSize : Nat := 2 ^ 32

/-- mirrors kernel/mm/pmm/pmm.h:16-19 (`PAGE_SIZE`) -/
def pageSize : Nat := 4096

/-- mirrors include/string.h:16 (`align_down`): `a & ~(n - 1)` for a power of two `n` -/
def alignDown (a n : Nat) : Nat := a / n * n

/-- mirrors include/string.h:18 (`align_up`): `(a + n - 1) & ~(n - 1)` in 32 bits -/
def alignUp (a n : Nat) : Nat := (a + (n - 1)) % wordSize / n * n

/-- mirrors kernel/mm/pmm/pmm.h:29 (`PfnToPa`) -/
def pfnToPa (pfn : Nat) : Nat := pfn * pageSize % wordSize

/-- mirrors kernel/mm/pmm/pmm.h:36 (`PaToPfn`) -/
def paToPfn (pa : Nat) : Nat := pa / pageSize

abbrev MemProt := BitVec 32

/-- mirrors include/types.h (`PROT_*`) and kernel/mm/vmm/vmm.h:35 -/
def protRead : MemProt := 1#32
def protWrite : MemProt := 2#32
def protExec : MemProt := 4#32
def vmProtUser : MemProt := 8#32

/-- mirrors kernel/mm/vmm/vmm.h:38-42 -/
inductive VirtMemType
  | normal | device | normalNc
  deriving DecidableEq, Repr

/-- mirrors kernel/mm/vmm/vmm.h:77-80 -/
inductive AddressSpaceType
  | kernel | user
  deriving DecidableEq, Repr

/-- mirrors arch/include/arch/mmu.h:14 -/
def sectionSize : Nat := 0x100000

/-- mirrors arch/arm/include/arch_impl/user_layout.h:10 -/
def userVaTop : Nat := 0x80000000

end Zuzu
