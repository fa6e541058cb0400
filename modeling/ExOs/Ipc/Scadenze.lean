import Mathlib.Data.UInt
import Mathlib.Tactic.Common

/-!
# Deadlines of the messages

The waiting loops of `ipc_recv_timeout` and `ipc_send` in `kernel/ipc/ipc.c`.
A turn reads the tick counter and what the others have made of the mailbox
and of its line; it returns, or sleeps until the next one.
-/

namespace ExOs.Ipc

def ipcMailboxDepth : Nat := 4

def ipcSendAttesaTick : UInt32 := 1000

def ipcSenzaAttesa : UInt32 := 0x80000000

inductive Uscita where
  | fatto
  | esrch
  | ebusy
  | eintr
  | etimedout
deriving DecidableEq

/-- What a turn of `ipc_recv_timeout` reads; `interrotto` is the answer of
`proc_interrotto` after the sleep. -/
structure GiroRecv where
  ticks : UInt32
  ipcCount : Nat
  interrotto : Bool

/-- A deadline of 0 would mean "none", and a wait of 0 ticks is not one. -/
def nonZero (x : UInt32) : UInt32 := if x = 0 then 1 else x

def scadenzaRecv (gTicks timeoutMs : UInt32) : UInt32 :=
  if 0 < timeoutMs then nonZero (gTicks + nonZero ((timeoutMs + 9) / 10)) else 0

/-- The loop: how it returns and when, or nothing while it still waits. -/
def giriRecv (scadenza : UInt32) : List GiroRecv → Option (Uscita × UInt32)
  | [] => none
  | g :: altri =>
    if 0 < g.ipcCount then some (.fatto, g.ticks)
    else if scadenza ≠ 0 ∧ scadenza ≤ g.ticks then some (.etimedout, g.ticks)
    else if g.interrotto then some (.eintr, g.ticks)
    else giriRecv scadenza altri

def ipcRecvTimeout (gTicks timeoutMs : UInt32) (giri : List GiroRecv) : Option (Uscita × UInt32) :=
  giriRecv (scadenzaRecv gTicks timeoutMs) giri

/-- What a turn of `ipc_send` reads: whether the receiver is alive, its mailbox
and its line, and the sender's own place in a line. -/
structure GiroSend where
  ticks : UInt32
  vivo : Bool
  ipcCount : Nat
  ipcRiservati : Nat
  filaVuota : Bool
  inFila : Bool
  concesso : Bool

/-- Whether the sender may take a slot. -/
def posto (senza : Bool) (g : GiroSend) : Bool :=
  if senza then g.ipcCount < ipcMailboxDepth
  else if g.inFila then g.concesso && g.ipcCount < ipcMailboxDepth
  else g.filaVuota && g.ipcCount + g.ipcRiservati < ipcMailboxDepth

def giriSend (senza : Bool) (scadenza : UInt32) : List GiroSend → Option (Uscita × UInt32)
  | [] => none
  | g :: altri =>
    if g.vivo = false then some (.esrch, g.ticks)
    else if posto senza g then some (.fatto, g.ticks)
    else if senza then some (.ebusy, g.ticks)
    else if scadenza ≤ g.ticks then some (.ebusy, g.ticks)
    else giriSend senza scadenza altri

def ipcSend (gTicks tipo : UInt32) (giri : List GiroSend) : Option (Uscita × UInt32) :=
  giriSend (tipo &&& ipcSenzaAttesa ≠ 0) (nonZero (gTicks + ipcSendAttesaTick)) giri

variable {gTicks timeoutMs tipo scadenza quando : UInt32}

theorem giriRecv_etimedout {giri : List GiroRecv}
    (ret : giriRecv scadenza giri = some (.etimedout, quando)) : scadenza ≤ quando := by
  induction giri with
  | nil => cases ret
  | cons g altri ih =>
    rw [giriRecv] at ret
    split_ifs at ret with message late interrupted
    · cases ret
    · cases ret
      exact late.2
    · cases ret
    · exact ih ret

theorem giriSend_ebusy {giri : List GiroSend}
    (ret : giriSend false scadenza giri = some (.ebusy, quando)) : scadenza ≤ quando := by
  induction giri with
  | nil => cases ret
  | cons g altri ih =>
    rw [giriSend] at ret
    split_ifs at ret with dead room never late
    · cases ret
    · cases ret
    · cases never
    · cases ret
      exact late
    · exact ih ret

theorem toNat_nonZero (x : UInt32) : (nonZero x).toNat = if x.toNat = 0 then 1 else x.toNat := by
  by_cases zero : x = 0
  · rw [zero]
    rfl
  · have positive : x.toNat ≠ 0 := fun eq => zero (UInt32.toNat_inj.mp eq)
    rw [nonZero, if_neg zero, if_neg positive]

/-- A deadline `n` ticks away is over no sooner than after `m` of them, unless
`n` is shorter or the sum wraps: then it is over at once. -/
theorem nonZero_iff {n : UInt32} {m : Nat} (mPos : 0 < m) (nPos : 0 < n.toNat) :
    (∀ quando, nonZero (gTicks + n) ≤ quando → m ≤ (quando - gTicks).toNat) ↔
      m ≤ n.toNat ∧ gTicks.toNat + n.toNat < 2 ^ 32 := by
  have small := n.toNat_lt
  have sum := toNat_nonZero (gTicks + n)
  rw [UInt32.toNat_add] at sum
  constructor
  · intro far
    have atOnce := far gTicks
    have atDeadline := far _ (UInt32.le_refl _)
    rw [UInt32.le_iff_toNat_le, sum, UInt32.sub_self, UInt32.toNat_zero] at atOnce
    rw [UInt32.toNat_sub, sum] at atDeadline
    split_ifs at atOnce atDeadline <;> omega
  · rintro ⟨long, noWrap⟩ quando late
    rw [UInt32.le_iff_toNat_le, sum] at late
    rw [UInt32.toNat_sub]
    have now := quando.toNat_lt
    split_ifs at late <;> omega

theorem scadenza_recv_iff (gTicks : UInt32) (pos : 0 < timeoutMs) :
    (∀ giri quando, ipcRecvTimeout gTicks timeoutMs giri = some (.etimedout, quando) →
      (timeoutMs.toNat + 9) / 10 ≤ (quando - gTicks).toNat) ↔
      timeoutMs.toNat + 9 < 2 ^ 32 ∧ gTicks.toNat + (timeoutMs.toNat + 9) / 10 < 2 ^ 32 := by
  set n := nonZero ((timeoutMs + 9) / 10) with isN
  have ticks := toNat_nonZero ((timeoutMs + 9) / 10)
  have quotient : ((timeoutMs + 9) / 10).toNat = (timeoutMs.toNat + 9) % 2 ^ 32 / 10 := by
    rfl
  rw [← isN] at ticks
  have deadline : scadenzaRecv gTicks timeoutMs = nonZero (gTicks + n) := if_pos pos
  have armed : nonZero (gTicks + n) ≠ 0 := by
    unfold nonZero
    split
    · decide
    · assumption
  have nPos : 0 < n.toNat := by split_ifs at ticks <;> omega
  have mPos : 0 < (timeoutMs.toNat + 9) / 10 := by
    rw [UInt32.lt_iff_toNat_lt] at pos
    omega
  unfold ipcRecvTimeout
  rw [deadline]
  trans ∀ quando, nonZero (gTicks + n) ≤ quando →
    (timeoutMs.toNat + 9) / 10 ≤ (quando - gTicks).toNat
  · constructor
    · intro all quando late
      exact all [⟨quando, 0, false⟩] quando (by simp [giriRecv, armed, late])
    · exact fun all giri quando ret => all quando (giriRecv_etimedout ret)
  · rw [nonZero_iff mPos nPos, ticks]
    split_ifs <;> omega

theorem scadenza_send_iff (waits : tipo &&& ipcSenzaAttesa = 0) :
    (∀ giri quando, ipcSend gTicks tipo giri = some (.ebusy, quando) →
      ipcSendAttesaTick.toNat ≤ (quando - gTicks).toNat) ↔ gTicks.toNat + 1000 < 2 ^ 32 := by
  unfold ipcSend
  rw [decide_eq_false (not_not.mpr waits)]
  trans ∀ quando, nonZero (gTicks + ipcSendAttesaTick) ≤ quando →
    ipcSendAttesaTick.toNat ≤ (quando - gTicks).toNat
  · constructor
    · intro all quando late
      exact all [⟨quando, true, ipcMailboxDepth, 0, true, false, false⟩] quando
        (by simp [giriSend, posto, late])
    · exact fun all giri quando ret => all quando (giriSend_ebusy ret)
  · rw [nonZero_iff (by decide) (by decide)]
    exact and_iff_right (Nat.le_refl _)

/-- Both loops give up in time exactly when no sum wraps. -/
theorem scadenze_iff (gTicks : UInt32) (pos : 0 < timeoutMs) (waits : tipo &&& ipcSenzaAttesa = 0) :
    ((∀ giri quando, ipcRecvTimeout gTicks timeoutMs giri = some (.etimedout, quando) →
      (timeoutMs.toNat + 9) / 10 ≤ (quando - gTicks).toNat) ↔
      timeoutMs.toNat + 9 < 2 ^ 32 ∧ gTicks.toNat + (timeoutMs.toNat + 9) / 10 < 2 ^ 32) ∧
    ((∀ giri quando, ipcSend gTicks tipo giri = some (.ebusy, quando) →
      ipcSendAttesaTick.toNat ≤ (quando - gTicks).toNat) ↔ gTicks.toNat + 1000 < 2 ^ 32) :=
  ⟨scadenza_recv_iff gTicks pos, scadenza_send_iff waits⟩

theorem scadenze_iff_secondo :
    ((∀ giri quando, ipcRecvTimeout 0 1000 giri = some (.etimedout, quando) →
      100 ≤ (quando - 0).toNat) ↔ 1009 < 2 ^ 32 ∧ 0 + 100 < 2 ^ 32) ∧
    ((∀ giri quando, ipcSend 0 7 giri = some (.ebusy, quando) →
      ipcSendAttesaTick.toNat ≤ (quando - 0).toNat) ↔ 0 + 1000 < 2 ^ 32) :=
  scadenze_iff 0 (by decide) (by decide)

/-- Fifty ticks before the counter wraps a wait of a second is over at once,
and so is the wait of a sender. -/
theorem scadenze_avvolte :
    ipcRecvTimeout 0xFFFFFFCE 1000 [⟨0xFFFFFFCE, 0, false⟩] = some (.etimedout, 0xFFFFFFCE) ∧
      ipcSend 0xFFFFFFCE 7 [⟨0xFFFFFFCE, true, 4, 0, true, false, false⟩] =
        some (.ebusy, 0xFFFFFFCE) := by
  decide

end ExOs.Ipc
