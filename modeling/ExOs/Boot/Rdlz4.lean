import ExOs.Library.BackReferences
import ExOs.Library.Queries
import Mathlib.Algebra.Ring.Nat
import Mathlib.Tactic.Common

/-!
# The decoder of the compressed base system

`lz4_blocco` of `kernel/boot/rdlz4.c` as a program that asks for the bytes of
the block by their position.  What it writes is a list, so `op - dst` is its
length.
-/

namespace ExOs.Boot

open ExOs.Library

/-- Programs that read the input by position. -/
abbrev Lettore := Query Nat UInt8

def leggi (ip : Nat) : Lettore UInt8 := .ask ip .done

/-- The bytes after a nibble of 15, up to the first that is not 255:
`restano` is `ie - ip`, and the length is kept in 32 bits. -/
def lunga : Nat → Nat → Nat → Lettore (Option (Nat × Nat))
  | 0, _, _ => .done none
  | restano + 1, ip, len =>
    .ask ip fun b =>
      if b = 255 then lunga restano (ip + 1) ((len + 255) % 2 ^ 32)
      else .done (some (ip + 1, (len + b.toNat) % 2 ^ 32))

/-- A length: the nibble of the token, and the bytes that follow where it is
15. -/
def campo (n ip nibble : Nat) : Lettore (Option (Nat × Nat)) :=
  if nibble = 15 then lunga (n - ip) ip 15 else .done (some (ip, nibble))

/-- `while (lit--) *op++ = *ip++`. -/
def letterali : Nat → Nat → List UInt8 → Lettore (List UInt8)
  | 0, _, out => .done out
  | lit + 1, ip, out => .ask ip fun b => letterali lit (ip + 1) (out ++ [b])

/-- How one round of the loop ends: the block is malformed, it was the last
sequence, or the next one is at `ip`. -/
inductive Giro where
  | rotto
  | ultimo
  | avanti (ip : Nat)
deriving DecidableEq

/-- The second half of a round: the distance and the match. -/
def corrispondenza (n cap ip nibble : Nat) (out : List UInt8) : Lettore (Giro × List UInt8) :=
  if n - ip < 2 then pure (.rotto, out)
  else do
    let b₀ ← leggi ip
    let b₁ ← leggi (ip + 1)
    let off := b₀.toNat + 256 * b₁.toNat
    if off = 0 ∨ out.length < off then pure (.rotto, out)
    else
      match ← campo n (ip + 2) nibble with
      | none => pure (.rotto, out)
      | some (ip, len) =>
        let len := (len + 4) % 2 ^ 32
        if cap - out.length < len then pure (.rotto, out)
        else pure (.avanti ip, copyBack off len out)

/-- One round: a token, its literals and, unless the block ends there, its
match. -/
def giro (n cap ip : Nat) (out : List UInt8) : Lettore (Giro × List UInt8) :=
  if n ≤ ip then pure (.rotto, out)
  else do
    let tok ← leggi ip
    match ← campo n (ip + 1) (tok.toNat / 16) with
    | none => pure (.rotto, out)
    | some (ip, lit) =>
      if n - ip < lit ∨ cap - out.length < lit then pure (.rotto, out)
      else do
        let out ← letterali lit ip out
        if ip + lit = n then pure (.ultimo, out)
        else corrispondenza n cap (ip + lit) (tok.toNat % 16) out

/-- The loop, `giri` rounds of it: the value returned and the bytes written,
or nothing when it is still going. -/
def lz4Da (n cap : Nat) : Nat → Nat → List UInt8 → Lettore (Option (Int × List UInt8))
  | 0, _, _ => pure none
  | giri + 1, ip, out => do
      match ← giro n cap ip out with
      | (.rotto, out) => pure (some (-1, out))
      | (.ultimo, out) => pure (some (Int.bmod out.length (2 ^ 32), out))
      | (.avanti ip, out) => lz4Da n cap giri ip out

/-- A round takes at least the token, so there are no more than `n + 1`. -/
def lz4Blocco (n cap : Nat) : Lettore (Option (Int × List UInt8)) := lz4Da n cap (n + 1) 0 []

/-! ## What a round reads and writes -/

/-- A program that reads below `n` only, and what holds of its result. -/
abbrev Entro {Esito : Type} (n : Nat) (mem : Nat → UInt8) (q : Lettore Esito)
    (post : Esito → Prop) : Prop :=
  Query.Meets (fun i => i < n) mem q post

variable {n ip cap : Nat} {out : List UInt8}

variable (mem : Nat → UInt8) {nibble : Nat}

theorem leggi_entro (lt : ip < n) : Entro n mem (leggi ip) (fun b => b = mem ip) :=
  Query.Meets.ask lt (Query.Meets.pure rfl)

theorem lunga_entro {mem : Nat → UInt8} : ∀ (restano ip len : Nat), ip + restano = n →
      Entro n mem (lunga restano ip len) fun esito =>
        ∀ ip' len', esito = some (ip', len') → ip < ip' ∧ ip' ≤ n := by
  intro restano
  induction restano with
  | zero =>
    intro ip len _
    exact Query.Meets.pure (by simp)
  | succ restano ih =>
    intro ip len total
    apply Query.Meets.ask (by omega)
    split
    · apply (ih (ip + 1) _ (by omega)).mono
      intro esito after ip' len' found
      obtain ⟨later, le⟩ := after ip' len' found
      exact ⟨by omega, le⟩
    apply Query.Meets.pure
    intro ip' len' found
    injection found with pair
    injection pair with isIp _
    omega

theorem campo_entro (le : ip ≤ n) : Entro n mem (campo n ip nibble) fun esito =>
      ∀ ip' len, esito = some (ip', len) → ip ≤ ip' ∧ ip' ≤ n := by
  unfold campo
  split
  · apply (lunga_entro (n - ip) ip 15 (by omega)).mono
    intro esito after ip' len found
    obtain ⟨later, bounded⟩ := after ip' len found
    exact ⟨Nat.le_of_lt later, bounded⟩
  apply Query.Meets.pure
  intro ip' len found
  injection found with pair
  injection pair with isIp _
  omega

theorem letterali_entro {mem : Nat → UInt8} : ∀ (lit ip : Nat) (out : List UInt8), ip + lit ≤ n →
      Entro n mem (letterali lit ip out) fun out' =>
        out'.length = out.length + lit := by
  intro lit
  induction lit with
  | zero =>
    intro ip out _
    exact Query.Meets.pure rfl
  | succ lit ih =>
    intro ip out fits
    apply Query.Meets.ask (by omega)
    apply (ih (ip + 1) (out ++ [mem ip]) (by omega)).mono
    intro out' length
    rw [length, List.length_append, List.length_singleton]
    omega

/-- What a round leaves: no more than `cap` bytes written, and a later place in
the block. -/
def DopoGiro (n cap ip : Nat) (esito : Giro × List UInt8) : Prop :=
  esito.2.length ≤ cap ∧ ∀ ip', esito.1 = .avanti ip' → ip < ip' ∧ ip' ≤ n

theorem DopoGiro.fermo (room : out.length ≤ cap) {g : Giro} (stops : ∀ ip', g ≠ .avanti ip') :
    DopoGiro n cap ip (g, out) :=
  ⟨room, fun ip' moved => absurd moved (stops ip')⟩

theorem corrispondenza_entro (room : out.length ≤ cap) :
    Entro n mem (corrispondenza n cap ip nibble out) (DopoGiro n cap ip) := by
  unfold corrispondenza
  split
  · exact Query.Meets.pure (DopoGiro.fermo room nofun)
  apply Query.Meets.bind (leggi_entro mem (by omega))
  intro b₀ _
  apply Query.Meets.bind (leggi_entro mem (by omega))
  intro b₁ _
  dsimp only
  split
  · exact Query.Meets.pure (DopoGiro.fermo room nofun)
  apply Query.Meets.bind (campo_entro mem (by omega))
  intro esito after
  cases esito with
  | none => exact Query.Meets.pure (DopoGiro.fermo room nofun)
  | some coppia =>
    obtain ⟨later, bounded⟩ := after coppia.1 coppia.2 rfl
    dsimp only
    split
    · exact Query.Meets.pure (DopoGiro.fermo room nofun)
    apply Query.Meets.pure
    refine ⟨?_, ?_⟩
    · rw [length_copyBack]
      omega
    · intro ip' moved
      injection moved with isIp
      omega

theorem giro_entro (room : out.length ≤ cap) :
    Entro n mem (giro n cap ip out) (DopoGiro n cap ip) := by
  unfold giro
  split
  · exact Query.Meets.pure (DopoGiro.fermo room nofun)
  apply Query.Meets.bind (leggi_entro mem (by omega))
  intro tok _
  apply Query.Meets.bind (campo_entro mem (by omega))
  intro esito after
  cases esito with
  | none => exact Query.Meets.pure (DopoGiro.fermo room nofun)
  | some coppia =>
    obtain ⟨ip₁, lit⟩ := coppia
    obtain ⟨later, bounded⟩ := after ip₁ lit rfl
    dsimp only
    split
    · exact Query.Meets.pure (DopoGiro.fermo room nofun)
    apply Query.Meets.bind (letterali_entro lit ip₁ out (by omega))
    intro out' length
    have room' : out'.length ≤ cap := by omega
    split
    · exact Query.Meets.pure (DopoGiro.fermo room' nofun)
    apply (corrispondenza_entro mem room').mono
    intro esito after
    refine ⟨after.1, ?_⟩
    intro ip' moved
    obtain ⟨further, le⟩ := after.2 ip' moved
    exact ⟨by omega, le⟩

/-- The value returned: `-1`, or the bytes written in a signed 32-bit
integer. -/
def Rende (cap : Nat) (esito : Option (Int × List UInt8)) : Prop :=
  ∃ valore scritti, esito = some (valore, scritti) ∧ scritti.length ≤ cap ∧
    (valore = -1 ∨ valore = Int.bmod scritti.length (2 ^ 32))

theorem lz4Da_entro : ∀ (giri ip : Nat) (out : List UInt8), out.length ≤ cap → n - ip < giri →
      Entro n mem (lz4Da n cap giri ip out) (Rende cap) := by
  intro giri
  induction giri with
  | zero =>
    omega
  | succ giri ih =>
    intro ip out room enough
    apply Query.Meets.bind (giro_entro mem room)
    intro esito after
    obtain ⟨g, out'⟩ := esito
    obtain ⟨room', moves⟩ := after
    cases g with
    | rotto => exact Query.Meets.pure ⟨-1, out', rfl, room', Or.inl rfl⟩
    | ultimo => exact Query.Meets.pure ⟨_, out', rfl, room', Or.inr rfl⟩
    | avanti ip' =>
      obtain ⟨further, le⟩ := moves ip' rfl
      exact ih ip' out' room' (by omega)

/-- On any block and with any capacity the loop ends, having read inside the
block and written inside the capacity. -/
theorem lz4Blocco_entro : Entro n mem (lz4Blocco n cap) (Rende cap) :=
  lz4Da_entro mem (n + 1) 0 [] (Nat.zero_le cap) (by omega)

end ExOs.Boot
