import ExOs.Excert.Certificati
import Mathlib.Data.List.TakeWhile

/-!
# The name of the site

Names are compared over their whole length, and a wildcard stands for what is
before the first dot of the host, which may be nothing: a host that begins with
a dot passes for the wildcard above it.
-/

namespace ExOs.Excert

open List

def Uguale (nome host : List UInt8) : Prop := nome.map giu = host.map giu

/-- `*.` and a suffix with a dot stand for a label and that suffix. -/
def Jolly (nome host etichetta : List UInt8) : Prop :=
  ∃ suffisso resto, nome = 42 :: 46 :: suffisso ∧ 46 ∈ suffisso ∧ host = etichetta ++ 46 :: resto ∧
    46 ∉ etichetta ∧ Uguale suffisso resto

/-- The elements of the extension, up to its end or to one that is malformed. -/
def elementi (san : List UInt8) : Nat → Nat → List ExDerElem
  | 0, _ => []
  | fuel + 1, off =>
    match exderLeggi san off with
    | none => []
    | some e => e :: elementi san fuel (off + (e.intestazione + e.valore.length))

/-- The `dNSName`s. -/
def nomiDns (c : ExCert) : List (List UInt8) :=
  ((elementi (c.san.getD []) (c.san.getD []).length 0).filter fun e =>
    e.tag = 0x82).map ExDerElem.valore

def Autorizza (c : ExCert) (host : Stringa) : Prop :=
  ∃ nome ∈ nomiDns c, Uguale nome host.byte ∨ ∃ etichetta ≠ [], Jolly nome host.byte etichetta

section Comparisons

variable {cert host : List UInt8}

theorem nomeUguale_iff (noNul : 0 ∉ host) : nomeUguale cert host = true ↔ Uguale cert host := by
  induction cert generalizing host with
  | nil =>
    cases host with
    | nil => simp [nomeUguale, Uguale]
    | cons x host =>
      have other : x ≠ 0 := fun zero => noNul (zero ▸ mem_cons_self)
      simp [nomeUguale, Uguale, other]
  | cons b cert ih =>
    cases host with
    | nil => simp [nomeUguale, Uguale]
    | cons x host =>
      have other : x ≠ 0 := fun zero => noNul (zero ▸ mem_cons_self)
      rw [nomeUguale, headD_cons, if_neg other, tail_cons]
      by_cases same : giu b = giu x
      · rw [if_neg (not_not_intro same), ih fun zero => noNul (mem_cons_of_mem x zero),
          Uguale, Uguale, map_cons, map_cons, same, cons_inj_right]
      · rw [if_pos same]
        exact iff_of_false (by decide) fun wrong => same (cons.inj wrong).1

theorem dropWhile_punto {etichetta resto : List UInt8} (noDot : 46 ∉ etichetta) :
    (etichetta ++ 46 :: resto).dropWhile (· ≠ 46) = 46 :: resto := by
  rw [dropWhile_append_of_pos]
  · simp
  · intro b mem
    simpa using fun dot : b = 46 => noDot (dot ▸ mem)

theorem uguale_punto {a b : List UInt8} : Uguale (46 :: a) (46 :: b) ↔ Uguale a b := by
  rw [Uguale, map_cons, map_cons, cons_inj_right, Uguale]

theorem jollyUguale_iff (noNul : 0 ∉ host) :
    jollyUguale cert host = true ↔ ∃ etichetta, Jolly cert host etichetta := by
  unfold jollyUguale
  split
  · next suffisso =>
    by_cases dotted : 46 ∈ suffisso
    · by_cases dot : 46 ∈ host
      · obtain ⟨etichetta, resto, isHost, noDot⟩ := eq_append_cons_of_mem dot
        have noNul' : 0 ∉ 46 :: resto := fun zero => noNul (isHost ▸ mem_append_right _ zero)
        rw [if_pos dotted, isHost, dropWhile_punto noDot]
        dsimp only
        rw [headD_cons, if_neg (by decide), nomeUguale_iff noNul', uguale_punto]
        constructor
        · exact fun same => ⟨etichetta, suffisso, resto, rfl, dotted, rfl, noDot, same⟩
        · rintro ⟨etichetta', suffisso', resto', isCert, _, isHost', noDot', same⟩
          have rests := congrArg (dropWhile (· ≠ 46)) isHost'
          rw [dropWhile_punto noDot, dropWhile_punto noDot'] at rests
          rw [(cons.inj (cons.inj isCert).2).2, (cons.inj rests).2]
          exact same
      · have absent : host.dropWhile (· ≠ 46) = [] := dropWhile_eq_nil_iff.mpr fun b mem => by
          simpa using fun isDot : b = 46 => dot (isDot ▸ mem)
        rw [absent]
        refine iff_of_false (by simp) ?_
        rintro ⟨_, _, _, _, _, isHost, _⟩
        exact dot (isHost ▸ mem_append_right _ mem_cons_self)
    · rw [if_neg dotted]
      refine iff_of_false (by simp) ?_
      rintro ⟨_, _, _, isCert, member, _⟩
      exact dotted ((cons.inj (cons.inj isCert).2).2 ▸ member)
  · next other =>
    refine iff_of_false (by simp) ?_
    rintro ⟨_, suffisso, _, isCert, _⟩
    exact other suffisso isCert

end Comparisons

section Names

variable {san host : List UInt8} {off : Nat}

theorem exderLeggi_avanti {e : ExDerElem} (read : exderLeggi san off = some e) :
    off + 2 ≤ off + (e.intestazione + e.valore.length) := by
  have value : ∀ {tag : UInt8} {lung byteLung : Nat}, 1 ≤ byteLung →
    off + 1 + byteLung ≤ san.length →
      exderValore san off tag lung byteLung = some e →
      off + 2 ≤ off + (e.intestazione + e.valore.length) := by
    intro tag lung byteLung given fits isValue
    rw [exderValore] at isValue
    split at isValue
    · cases isValue
    rw [← Option.some.inj isValue]
    dsimp only
    omega
  rw [exderLeggi] at read
  split at read
  · cases read
  split at read
  · cases read
  split at read
  · exact value (by decide) (by omega) read
  dsimp only at read
  split at read
  · cases read
  split at read
  · cases read
  · split at read
    · cases read
    · exact value (Nat.le_add_left _ _) (by omega) read

theorem nomiDa_eq {fuel : Nat} (enough : san.length ≤ off + fuel) :
    ∃ r, nomiDa san host (fuel + 1) off = some r ∧ (r = .ok ↔ ∃ e ∈ elementi san fuel off,
      e.tag = 0x82 ∧ e.valore ≠ [] ∧
      (nomeUguale e.valore host = true ∨ jollyUguale e.valore host = true)) := by
  induction fuel generalizing off with
  | zero =>
    rw [nomiDa, if_pos (Nat.add_zero off ▸ enough)]
    exact ⟨_, rfl, by simp [elementi]⟩
  | succ fuel ih =>
    rw [nomiDa, elementi]
    split
    · next past =>
      rw [exderLeggi, if_pos (.inl past)]
      exact ⟨_, rfl, by simp⟩
    · cases read : exderLeggi san off with
      | none => exact ⟨_, rfl, by simp⟩
      | some e =>
        have further := exderLeggi_avanti read
        dsimp only
        split
        · next found =>
          exact ⟨_, rfl, iff_of_true rfl ⟨e, mem_cons_self, found⟩⟩
        rename_i found
        have left : san.length ≤ off + (e.intestazione + e.valore.length) + fuel := by omega
        obtain ⟨r, isR, spec⟩ := ih left
        exact ⟨r, isR, by simp only [spec, mem_cons, exists_eq_or_imp, found, false_or]⟩

end Names

section Host

variable {c : ExCert} {host : Stringa}

/-- `excert_nome_combacia` returns, and accepts a host that is not empty when a name equals it, or
is a wildcard for it with any label. -/
theorem excertNomeCombacia_eq :
    ∃ r, excertNomeCombacia c host = some r ∧ (r = .ok ↔ host.byte ≠ [] ∧
      ∃ nome ∈ nomiDns c, Uguale nome host.byte ∨ ∃ etichetta, Jolly nome host.byte etichetta) := by
  rw [excertNomeCombacia]
  split
  · next empty =>
    exact ⟨_, rfl, by simp [empty]⟩
  rename_i empty
  have names : ∀ nome, nome ∈ nomiDns c ↔
      ∃ e ∈ elementi (c.san.getD []) (c.san.getD []).length 0, e.tag = 0x82 ∧ e.valore = nome := by
    simp [nomiDns, and_assoc]
  have allows : ∀ nome, nome ≠ [] ∧
    (nomeUguale nome host.byte = true ∨ jollyUguale nome host.byte = true) ↔
      (Uguale nome host.byte ∨ ∃ etichetta, Jolly nome host.byte etichetta) := by
    intro nome
    rw [nomeUguale_iff host.senzaNul, jollyUguale_iff host.senzaNul, and_iff_right_iff_imp]
    rintro (same | ⟨_, _, _, isNome, _⟩) isNil
    · rw [isNil] at same
      exact empty (map_eq_nil_iff.mp same.symm)
    · rw [isNil] at isNome
      cases isNome
  cases isSan : c.san with
  | none =>
    simp [names, isSan, elementi]
  | some san =>
    rw [isSan] at names
    by_cases short : san.length = 0
    · simp [names, short, elementi]
    obtain ⟨r, isR, spec⟩ := nomiDa_eq (Nat.le_add_left san.length 0)
    refine ⟨r, (if_neg short).trans isR, spec.trans ?_⟩
    rw [and_iff_right empty]
    constructor
    · rintro ⟨e, mem, isTag, named⟩
      exact ⟨e.valore, (names _).mpr ⟨e, mem, isTag, rfl⟩, (allows _).mp named⟩
    · rintro ⟨nome, member, named⟩
      obtain ⟨e, mem, isTag, isNome⟩ := (names nome).mp member
      exact ⟨e, mem, isTag, isNome ▸ (allows nome).mpr named⟩

/-- Where the code departs from its rule: an empty name for an empty host, or a wildcard for a
host that begins with its dot and is no name itself. -/
def Devia (c : ExCert) (host : Stringa) : Prop :=
  (host.byte = [] ∧ [] ∈ nomiDns c) ∨
    (∃ nome ∈ nomiDns c, Jolly nome host.byte []) ∧ ∀ nome ∈ nomiDns c, ¬Uguale nome host.byte

theorem Jolly.unica {nome nome' host etichetta : List UInt8} (bare : Jolly nome host [])
    (jolly : Jolly nome' host etichetta) : etichetta = [] := by
  obtain ⟨_, resto, _, _, isHost, _, _⟩ := bare
  obtain ⟨_, resto', _, _, isHost', noDot, _⟩ := jolly
  cases etichetta with
  | nil => rfl
  | cons x label =>
    have fst := (cons.inj (isHost.symm.trans isHost')).1
    exact absurd (fst ▸ mem_cons_self) noDot

theorem Devia.non_autorizza (devia : Devia c host) (full : host.byte ≠ []) : ¬Autorizza c host := by
  obtain ⟨⟨nome, _, bare⟩, differ⟩ := devia.resolve_left fun wrong => full wrong.1
  rintro ⟨nome', mem, same | ⟨etichetta, ne, jolly⟩⟩
  · exact differ nome' mem same
  · exact ne (bare.unica jolly)

/-- The host is accepted exactly when a name of the certificate allows it, except where the code
departs from its rule. -/
theorem nome_combacia_iff (c : ExCert) (host : Stringa) :
    ∃ r, excertNomeCombacia c host = some r ∧ ((r = .ok ↔ Autorizza c host) ↔ ¬Devia c host) := by
  obtain ⟨r, isR, spec⟩ := excertNomeCombacia_eq
  refine ⟨r, isR, ?_⟩
  rw [spec]
  by_cases full : host.byte = []
  · have noJolly : ∀ nome etichetta, ¬Jolly nome [] etichetta := by
      rintro nome etichetta ⟨_, _, _, _, isHost, _⟩
      simp at isHost
    have onlyNil : ∀ nome, Uguale nome [] ↔ nome = [] := by
      intro nome
      rw [Uguale, map_nil, map_eq_nil_iff]
    simp [Autorizza, Devia, full, noJolly, onlyNil]
  · rw [and_iff_right full]
    constructor
    · intro agree devia
      obtain ⟨nome, inside, bare⟩ := (devia.resolve_left fun wrong => full wrong.1).1
      exact devia.non_autorizza full (agree.mp ⟨nome, inside, .inr ⟨[], bare⟩⟩)
    · intro rule
      constructor
      · rintro ⟨nome, inside, same | ⟨etichetta, jolly⟩⟩
        · exact ⟨nome, inside, .inl same⟩
        · by_cases bare : etichetta = []
          · by_contra notAllowed
            refine rule (.inr ⟨⟨nome, inside, bare ▸ jolly⟩, fun other mem same => ?_⟩)
            exact notAllowed ⟨other, mem, .inl same⟩
          · exact ⟨nome, inside, .inr ⟨etichetta, bare, jolly⟩⟩
      · rintro ⟨nome, inside, same | ⟨etichetta, _, jolly⟩⟩
        · exact ⟨nome, inside, .inl same⟩
        · exact ⟨nome, inside, .inr ⟨etichetta, jolly⟩⟩

/-- A certificate for `*.a.b`. -/
def jollyAB : ExCert := { ExCert.vuoto with san := some [0x82, 5, 42, 46, 97, 46, 98] }

/-- The host `.a.b`. -/
def puntoAB : Stringa := ⟨[46, 97, 46, 98], by decide⟩

theorem nome_senza_etichetta :
    excertNomeCombacia jollyAB puntoAB = some .ok ∧ ¬Autorizza jollyAB puntoAB := by
  have names : nomiDns jollyAB = [[42, 46, 97, 46, 98]] := by decide
  refine ⟨by decide,
    Devia.non_autorizza (.inr ⟨⟨_, names ▸ mem_singleton_self _, ?_⟩, ?_⟩) (by decide)⟩
  · exact ⟨[97, 46, 98], [97, 46, 98], rfl, by decide, rfl, not_mem_nil, rfl⟩
  · intro nome mem
    rw [mem_singleton.mp mem, Uguale]
    decide

end Host

end ExOs.Excert
