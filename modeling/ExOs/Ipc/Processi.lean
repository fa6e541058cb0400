import Mathlib.Tactic.Common

/-!
# The process table

The part of a PCB that `kernel/ipc/ipc.c` looks at in every call, and
`proc_get_by_pid` of `kernel/sched/sched.c`.
-/

namespace ExOs.Ipc

inductive Stato where
  | unused
  | ready
  | running
  | blocked
  | zombie
  | sleeping
  | nascente
deriving DecidableEq

def Stato.vivo : Stato → Bool
  | .unused => false
  | .zombie => false
  | _ => true

/-- The errors of `ipc.c`. -/
inductive ErroreIpc where
  | einval
  | eexist
  | eperm
  | enospc
  | enoent
  | esrch
  | ebusy
  | etimedout
  | eintr
deriving DecidableEq

structure Scheda where
  pid : UInt32
  stato : Stato

def procGetByPid (posti : Nat) (proc : Nat → Scheda) (pid : UInt32) : Option Nat :=
  (List.range posti).find? fun i => (proc i).pid = pid ∧ (proc i).stato ≠ .unused

variable {posti : Nat} {proc : Nat → Scheda} {pid : UInt32} {p : Nat}

theorem procGetByPid_some (found : procGetByPid posti proc pid = some p) :
    p < posti ∧ (proc p).pid = pid ∧ (proc p).stato ≠ .unused := by
  have lt := List.mem_range.mp (List.mem_of_find?_eq_some found)
  have holds := List.find?_some found
  simp only [decide_eq_true_eq] at holds
  exact ⟨lt, holds.1, holds.2⟩

theorem procGetByPid_none (found : procGetByPid posti proc pid = none) (lt : p < posti)
    (isPid : (proc p).pid = pid) : (proc p).stato = .unused := by
  have all := List.find?_eq_none.mp found p (List.mem_range.mpr lt)
  simp only [decide_eq_true_eq, not_and, not_not] at all
  exact all isPid

end ExOs.Ipc
