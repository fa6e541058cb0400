import ExOs.Library.Walks
import Mathlib.Data.List.TakeWhile
import Mathlib.Data.Nat.Digits.Defs
import Mathlib.Algebra.Ring.Nat

/-!
# The index of a tar archive

`lib/extar/extar.c`: the headers of an archive that is whole in memory, with
the long names of GNU tar and of pax.  A name is its bytes up to the first
zero; an `unsigned long` has 32 bits, and an archive at most 64 MB, so only the
numbers written in it can make a sum wrap.
-/

namespace ExOs.Extar

open ExOs.Library List Relation

def blocco : Nat := 512

/-- `EXTAR_NOME_MAX`, the final zero included. -/
def nomeMax : Nat := 512

structure Voce where
  nome : List UInt8
  dim : Nat
  dati : Nat
  mtime : Nat
  modo : Nat
  tipo : UInt8

/-- What `indicizza` leaves, and whether it returns 1. -/
structure Indice where
  voci : List Voce
  fine : Nat
  esito : Bool

/-! ## The code -/

def stringa (byte : List UInt8) : List UInt8 := byte.takeWhile (· ≠ 0)

def numero (base : Nat) (cifre : List UInt8) : Nat :=
  cifre.foldl (fun v c => (v * base + (c.toNat - 48)) % 2 ^ 32) 0

def ottale (p : List UInt8) (max : Nat) : Nat :=
  numero 8 (((p.take max).dropWhile fun c => c = 32 ∨ c = 0).takeWhile fun c => 48 ≤ c ∧ c ≤ 55)

def somma (h : List UInt8) : Nat :=
  ((h.take 148 ++ replicate 8 32 ++ h.drop 156).map UInt8.toNat).sum

def bloccoVuoto (h : List UInt8) : Bool := h.all (· = 0)

def arrotonda (dim : Nat) : Nat := (dim + blocco - 1) % 2 ^ 32 / blocco * blocco

variable (d : List UInt8)

/-- One round of `pax_path`, at offset `i`: the answer, or the offset of the next record. -/
def paxGiro (i : Nat) : Option (List UInt8) ⊕ Nat :=
  if d.length ≤ i then .inl none
  else
    let cifre := (d.drop i).takeWhile fun c => 48 ≤ c ∧ c ≤ 57
    let len := numero 10 cifre
    let j := i + cifre.length
    let dopo := (i + len) % 2 ^ 32
    if len = 0 ∨ d.length < dopo then .inl none
    else if j + 6 < dopo ∧ (d.drop j).take 6 = [32, 112, 97, 116, 104, 61] then
      let l := dopo - (j + 6) - 1
      .inl (if nomeMax ≤ l then none else some (stringa ((d.drop (j + 6)).take l)))
    else .inr dopo

/-- The name in a header, with the prefix of ustar. -/
def nomeTesta (h : List UInt8) : List UInt8 :=
  if (h.drop 257).take 5 = [117, 115, 116, 97, 114] ∧ h.getD 345 0 ≠ 0 then
    stringa ((h.drop 345).take 155) ++ 47 :: stringa (h.take 100)
  else stringa (h.take 100)

/-- `while (s[0] == '.' && s[1] == '/')`, with the slashes that follow. -/
def spogliaGiri : Nat → List UInt8 → List UInt8
  | 0, s => s
  | giri + 1, s =>
      if s.take 2 = [46, 47] then spogliaGiri giri ((s.drop 2).dropWhile (· = 47)) else s

def spoglia (s : List UInt8) : List UInt8 := spogliaGiri s.length s

/-- The variables of `indicizza`: `lungo` is the name that the next member will have. -/
structure Stato where
  i : Nat
  lungo : List UInt8
  fine : Nat
  voci : List Voce

/-- The member with header `h` at `s.i`, its data in the archive. -/
def prendi (giri : Nat) (s : Stato) (h : List UInt8) (dim : Nat) : Option Indice ⊕ Stato :=
  let i := s.i + blocco
  let tipo := h.getD 156 0
  let fine := i + arrotonda dim
  let dati := (d.drop i).take dim
  if tipo = 76 then
    .inr { s with i := fine, fine := fine, lungo := stringa (dati.take (nomeMax - 1)) }
  else if tipo = 120 then
    match walk (paxGiro dati) giri 0 with
    | none => .inl none
    | some path => .inr { s with i := fine, fine := fine, lungo := path.getD [] }
  else if tipo = 103 then .inr { s with i := fine, fine := fine }
  else
    let nome := spoglia (if s.lungo ≠ [] then s.lungo else nomeTesta h)
    let v : Voce :=
      { nome, dim, dati := i, mtime := ottale (h.drop 136) 12,
        modo := ottale (h.drop 100) 8 % 512, tipo }
    .inr
      { i := fine, lungo := [], fine,
        voci := if nome ≠ [] ∧ nome ≠ [46] then s.voci ++ [v] else s.voci }

/-- One round of `indicizza`; `none` when the reader of the pax records does not end. -/
def giro (giri : Nat) (s : Stato) : Option Indice ⊕ Stato :=
  let h := (d.drop s.i).take blocco
  let dim := ottale (h.drop 124) 12
  if d.length < s.i + blocco then .inl (some ⟨s.voci, s.fine, true⟩)
  else if bloccoVuoto h then .inl (some ⟨s.voci, s.fine, true⟩)
  else if somma h ≠ ottale (h.drop 148) 8 then .inl (some ⟨s.voci, s.fine, s.i ≠ 0⟩)
  else if d.length - (s.i + blocco) < dim then .inl (some ⟨s.voci, s.fine, false⟩)
  else prendi d giri s h dim

/-- `indicizza`, with `giri` rounds for each loop. -/
def indicizza (giri : Nat) (d : List UInt8) : Option Indice :=
  (walk (giro d giri) giri ⟨0, [], 0, []⟩).join

/-! ## One round -/

/-- The header of a member begins at `i`: its type and the size of the data, which are there. -/
def membro (i : Nat) : Option (UInt8 × Nat) :=
  let h := (d.drop i).take blocco
  let dim := ottale (h.drop 124) 12
  if i + blocco ≤ d.length ∧ bloccoVuoto h = false ∧ somma h = ottale (h.drop 148) 8 ∧
      dim ≤ d.length - (i + blocco) then some (h.getD 156 0, dim) else none

/-- After the member at `i` comes what is at `i'`. -/
def Seguito (i i' : Nat) : Prop :=
  ∃ tipo dim, membro d i = some (tipo, dim) ∧ i' = i + blocco + arrotonda dim

def Cifra (c : UInt8) : Prop := 48 ≤ c ∧ c ≤ 57

/-- The number that digits write. -/
def decimale (cifre : List UInt8) : Nat := Nat.ofDigits 10 (cifre.map fun c => c.toNat - 48).reverse

/-- The record at `i` of a pax header: digits, which give its length `n` in 32 bits, and a text
that is not the path. The next record is at `i'`, in the header or at its end. -/
structure Record (d : List UInt8) (i n i' : Nat) (cifre testo : List UInt8) : Prop where
  scritto : d.drop i = cifre ++ testo
  numero : ∀ c ∈ cifre, Cifra c
  finito : ∀ c ∈ testo.head?, ¬Cifra c
  lungo : n = decimale cifre % 2 ^ 32
  pieno : 0 < n
  dopo : i' = (i + n) % 2 ^ 32
  dentro : i' ≤ d.length
  altro : ¬(i + cifre.length + 6 < i' ∧ testo.take 6 = [32, 112, 97, 116, 104, 61])

def Segue (i i' : Nat) : Prop := ∃ n cifre testo, Record d i n i' cifre testo

/-- The records of the header `d` lead to one at `i` whose offset and length reach `2 ^ 32`, and
from there back to it. -/
def Gira : Prop :=
  ∃ i n i' cifre testo, ReflTransGen (Segue d) 0 i ∧ Record d i n i' cifre testo ∧
    2 ^ 32 ≤ i + n ∧ ReflTransGen (Segue d) i' i

/-- The records of no pax header, of those that the members lead to, go round in a circle. -/
def SenzaGiri (i : Nat) : Prop :=
  ∀ k dim, ReflTransGen (Seguito d) i k → membro d k = some (120, dim) →
    ¬Gira ((d.drop (k + blocco)).take dim)

def Nome (nome : List UInt8) : Prop := nome.length < nomeMax ∧ 0 ∉ nome

def Limitata (v : Voce) : Prop := v.dati + v.dim ≤ d.length ∧ Nome v.nome

/-- A name that the index may have: not the archive's own directory, and without "./" in front. -/
def Elencato (nome : List UInt8) : Prop := nome ≠ [] ∧ nome ≠ [46] ∧ nome.take 2 ≠ [46, 47]

section Names

variable {nome : List UInt8} {giri : Nat}

theorem nome_nil : Nome [] := ⟨by decide, not_mem_nil⟩

theorem nome_stringa (byte : List UInt8) (short : byte.length < nomeMax) : Nome (stringa byte) :=
  ⟨Nat.lt_of_le_of_lt (takeWhile_sublist _).length_le short, fun zero => by
    simpa using mem_takeWhile_imp zero⟩

theorem nome_nomeTesta (h : List UInt8) : Nome (nomeTesta h) := by
  have main := nome_stringa (h.take 100) (Nat.lt_of_le_of_lt (length_take_le ..) (by decide))
  rw [nomeTesta]
  split
  · have front :=
      nome_stringa ((h.drop 345).take 155) (Nat.lt_of_le_of_lt (length_take_le ..) (by decide))
    have firstLength : (stringa ((h.drop 345).take 155)).length ≤ 155 :=
      (takeWhile_sublist _).length_le.trans (length_take_le ..)
    have lastLength : (stringa (h.take 100)).length ≤ 100 :=
      (takeWhile_sublist _).length_le.trans (length_take_le ..)
    refine ⟨?_, ?_⟩
    · rw [length_append, length_cons, nomeMax]
      omega
    · rw [mem_append, mem_cons, not_or, not_or]
      exact ⟨front.2, by decide, main.2⟩
  · exact main

theorem Nome.sublist {altro : List UInt8} (isName : Nome nome) (part : altro.Sublist nome) :
    Nome altro :=
  ⟨Nat.lt_of_le_of_lt part.length_le isName.1, fun zero => isName.2 (part.subset zero)⟩

theorem spogliaGiri_sublist : ∀ s, (spogliaGiri giri s).Sublist s := by
  induction giri with
  | zero => exact Sublist.refl
  | succ giri ih =>
    intro s
    rw [spogliaGiri]
    split
    · exact (ih _).trans ((dropWhile_sublist _).trans (drop_sublist 2 s))
    · exact Sublist.refl s

theorem spogliaGiri_fine : ∀ s : List UInt8, s.length ≤ giri →
    (spogliaGiri giri s).take 2 ≠ [46, 47] := by
  induction giri with
  | zero =>
    intro s short
    rw [eq_nil_of_length_eq_zero (Nat.le_zero.mp short)]
    decide
  | succ giri ih =>
    intro s short
    rw [spogliaGiri]
    split
    · have less := (dropWhile_sublist (· = 47) (l := s.drop 2)).length_le
      rw [length_drop] at less
      exact ih _ (by omega)
    · assumption

end Names

section Round

variable {giri : Nat}

theorem nome_paxPath {path : Option (List UInt8)} {dati : List UInt8}
    (ended : walk (paxGiro dati) giri 0 = some path) : Nome (path.getD []) := by
  refine walk_invariant (fun _ => True) (fun r => Nome (r.getD [])) (fun i r _ stops => ?_)
    (fun _ _ _ _ => trivial) trivial ended
  rw [paxGiro] at stops
  dsimp only at stops
  split at stops
  · exact Sum.inl.inj stops ▸ nome_nil
  split at stops
  · exact Sum.inl.inj stops ▸ nome_nil
  split at stops
  · rw [← Sum.inl.inj stops]
    split
    · exact nome_nil
    · next short =>
      exact nome_stringa _ (Nat.lt_of_le_of_lt (length_take_le ..) (Nat.lt_of_not_le short))
  · cases stops

theorem numero_decimale (cifre : List UInt8) : numero 10 cifre = decimale cifre % 2 ^ 32 := by
  induction cifre using reverseRecOn with
  | nil => rfl
  | append_singleton cifre c ih =>
    have step : numero 10 (cifre ++ [c]) = (numero 10 cifre * 10 + (c.toNat - 48)) % 2 ^ 32 :=
      foldl_append
    rw [step, ih, decimale, decimale, map_append, map_singleton, reverse_append, reverse_singleton,
      singleton_append, Nat.ofDigits_cons]
    omega

theorem takeWhile_cifre {cifre testo : List UInt8} (digits : ∀ c ∈ cifre, Cifra c)
    (stops : ∀ c ∈ testo.head?, ¬Cifra c) :
    (cifre ++ testo).takeWhile (fun c => 48 ≤ c ∧ c ≤ 57) = cifre := by
  have none : testo.takeWhile (fun c => 48 ≤ c ∧ c ≤ 57) = [] := by
    cases testo with
    | nil => rfl
    | cons c rest => exact takeWhile_cons_of_neg (by simpa [Cifra] using stops c rfl)
  rw [takeWhile_append_of_pos (by simpa [Cifra] using digits), none, append_nil]

theorem goes_paxGiro {d : List UInt8} : Goes (paxGiro d) = Segue d := by
  ext i i'
  rw [Goes, paxGiro]
  constructor
  · intro goes
    split at goes
    · cases goes
    dsimp only at goes
    split at goes
    · cases goes
    next good =>
    split at goes
    · cases goes
    next other =>
    obtain ⟨full, fits⟩ := not_or.mp good
    have whole := takeWhile_append_dropWhile (p := fun c => 48 ≤ c ∧ c ≤ 57) (l := d.drop i)
    have rest : d.drop (i + ((d.drop i).takeWhile fun c => 48 ≤ c ∧ c ≤ 57).length) =
        (d.drop i).dropWhile fun c => 48 ≤ c ∧ c ≤ 57 := by
      rw [← drop_drop]
      nth_rewrite 2 [← whole]
      exact drop_left
    rw [rest] at other
    rw [← Sum.inr.inj goes]
    refine ⟨_, _, _, whole.symm, fun c member => ?_, fun c first digit => ?_, numero_decimale _,
      Nat.pos_of_ne_zero full, rfl, Nat.le_of_not_lt fits, other⟩
    · simpa [Cifra] using mem_takeWhile_imp member
    · have stops := head?_dropWhile_not (fun c => 48 ≤ c ∧ c ≤ 57) (d.drop i)
      simp_all [Cifra]
  · rintro ⟨n, cifre, testo, record⟩
    have isCifre := takeWhile_cifre record.numero record.finito
    rw [← record.scritto] at isCifre
    have isTesto : d.drop (i + cifre.length) = testo := by
      rw [← drop_drop, record.scritto, drop_left]
    have inside : ¬d.length ≤ i := by
      intro beyond
      have empty := record.scritto
      rw [drop_eq_nil_of_le beyond] at empty
      have none := record.pieno
      rw [record.lungo, (append_eq_nil_iff.mp empty.symm).1] at none
      exact absurd none (by decide)
    rw [if_neg inside]
    dsimp only
    rw [isCifre, numero_decimale, ← record.lungo, ← record.dopo, isTesto,
      if_neg (not_or.mpr ⟨record.pieno.ne', Nat.not_lt_of_le record.dentro⟩), if_neg record.altro]

theorem returns_paxGiro {d : List UInt8} : Returns (paxGiro d) 0 ↔ Gira d := by
  rw [returns_iff_descends id, goes_paxGiro]
  constructor
  · rintro ⟨i, i', reached, ⟨n, cifre, testo, record⟩, down, back⟩
    refine ⟨i, n, i', cifre, testo, reached, record, ?_, back⟩
    have isNext := record.dopo
    have full := record.pieno
    simp only [id] at down
    omega
  · rintro ⟨i, n, i', cifre, testo, reached, record, wraps, back⟩
    refine ⟨i, i', reached, ⟨n, cifre, testo, record⟩, ?_, back⟩
    have isNext := record.dopo
    have short := record.lungo
    simp only [id]
    omega

/-- What holds between two rounds. -/
structure Sano (d : List UInt8) (s : Stato) : Prop where
  lungo : Nome s.lungo
  voci : ∀ v ∈ s.voci, Limitata d v ∧ Elencato v.nome

/-- What a round does: it stops at the end of the members, is caught in the records of a pax header,
or goes on after a member. -/
inductive Giro (d : List UInt8) (giri : Nat) (s : Stato) : Option Indice ⊕ Stato → Prop where
  | fermo (esito : Bool) (nothing : membro d s.i = none) : Giro d giri s
      (.inl (some ⟨s.voci, s.fine, esito⟩))
  | preso {dim : Nat} (here : membro d s.i = some (120, dim))
      (runs : walk (paxGiro ((d.drop (s.i + blocco)).take dim)) giri 0 = none) : Giro d giri s
        (.inl none)
  | avanti {tipo : UInt8} {dim : Nat} {s' : Stato} (here : membro d s.i = some (tipo, dim))
      (inside : s.i + blocco ≤ d.length) (place : s'.i = s.i + blocco + arrotonda dim)
      (reads : tipo = 120 → ∃ r, walk (paxGiro ((d.drop (s.i + blocco)).take dim)) giri 0 = some r)
      (keeps : Sano d s → Sano d s') : Giro d giri s (.inr s')

theorem giro_giro (d : List UInt8) (giri : Nat) (s : Stato) : Giro d giri s (giro d giri s) := by
  rw [giro]
  split
  · next short => exact .fermo _ (if_neg fun good => by omega)
  next inside =>
  split
  · next full => exact .fermo _ (if_neg fun good => Bool.eq_false_iff.mp good.2.1 full)
  next full =>
  split
  · next wrong => exact .fermo _ (if_neg fun good => wrong good.2.2.1)
  next sum =>
  split
  · next more => exact .fermo _ (if_neg fun good => Nat.not_lt_of_le good.2.2.2 more)
  next fits =>
  have here : membro d s.i = some _ := if_pos
    ⟨Nat.le_of_not_lt inside, Bool.eq_false_iff.mpr full, not_not.mp sum, Nat.le_of_not_lt fits⟩
  generalize ottale (((d.drop s.i).take blocco).drop 124) 12 = dim at here fits ⊢
  generalize (d.drop s.i).take blocco = h at here ⊢
  rw [prendi]
  split
  · next long =>
    refine .avanti here (by omega) rfl (fun pax => nomatch long.symm.trans pax) fun sano => ?_
    exact ⟨nome_stringa _ (Nat.lt_of_le_of_lt (length_take_le ..) (by decide)), sano.voci⟩
  split
  · next pax =>
    cases read : walk (paxGiro ((d.drop (s.i + blocco)).take dim)) giri 0 with
    | none => exact .preso (pax ▸ here) read
    | some path =>
      exact .avanti here (by omega) rfl (fun _ => ⟨path, read⟩) fun sano =>
        ⟨nome_paxPath read, sano.voci⟩
  next notPax =>
  split
  · exact .avanti here (by omega) rfl (fun pax => absurd pax notPax) fun sano =>
      ⟨sano.lungo, sano.voci⟩
  refine .avanti here (by omega) rfl (fun pax => absurd pax notPax) fun sano => ⟨nome_nil, ?_⟩
  have isName : Nome (spoglia (if s.lungo ≠ [] then s.lungo else nomeTesta h)) := by
    refine Nome.sublist ?_ (spogliaGiri_sublist _)
    split
    · exact sano.lungo
    · exact nome_nomeTesta h
  have stripped : (spoglia (if s.lungo ≠ [] then s.lungo else nomeTesta h)).take 2 ≠ [46, 47] :=
    spogliaGiri_fine _ (Nat.le_refl _)
  generalize spoglia (if s.lungo ≠ [] then s.lungo else nomeTesta h) = nome at isName stripped ⊢
  split
  · next kept =>
    intro v mem
    rcases mem_append.mp mem with old | new
    · exact sano.voci v old
    · rw [mem_singleton.mp new]
      exact ⟨⟨by dsimp only; omega, isName⟩, kept.1, kept.2, stripped⟩
  · exact sano.voci

end Round

/-! ## The whole archive -/

section Archive

variable {d : List UInt8} {giri : Nat} {i i' : Nat} {r : Indice}

theorem SenzaGiri.seguito (senza : SenzaGiri d i) (next : Seguito d i i') : SenzaGiri d i' :=
  fun k dim reached => senza k dim (.head next reached)

theorem indicizza_voci (made : indicizza giri d = some r) :
    ∀ v ∈ r.voci, Limitata d v ∧ Elencato v.nome := by
  refine walk_invariant (Sano d)
    (fun r => ∀ t, r = some t → ∀ v ∈ t.voci, Limitata d v ∧ Elencato v.nome)
    (fun s r sano stops t isT => ?_) (fun s s' sano goes => ?_)
      ⟨nome_nil, fun v absent => absurd absent not_mem_nil⟩
    (Option.join_eq_some_iff.mp made) r rfl
  · have round := giro_giro d giri s
    rw [stops, isT] at round
    cases round
    exact sano.voci
  · have round := giro_giro d giri s
    rw [goes] at round
    cases round with
    | avanti _ _ _ _ keeps => exact keeps sano

theorem indicizza_of_senzaGiri (senza : SenzaGiri d 0) :
    ∃ r, indicizza (d.length + 1) d = some r := by
  obtain ⟨r, ended⟩ : ∃ r, walk (giro d (d.length + 1)) (d.length + 1) ⟨0, [], 0, []⟩ = some r := by
    refine walk_of_measure (fun s => d.length - s.i) (fun s s' goes => ?_) (Nat.lt_succ_self _)
    have round := giro_giro d (d.length + 1) s
    rw [goes] at round
    cases round with
    | avanti _ le place =>
      unfold blocco at *
      omega
  suffices good : r ≠ none by
    obtain ⟨t, isT⟩ := Option.ne_none_iff_exists'.mp good
    exact ⟨t, Option.join_eq_some_iff.mpr (isT ▸ ended)⟩
  refine walk_invariant (fun s => SenzaGiri d s.i) (fun r => r ≠ none) ?_ ?_ senza ended
  · rintro s r senza stops rfl
    have round := giro_giro d (d.length + 1) s
    rw [stops] at round
    cases round with
    | @preso dim here runs =>
      have less : ((d.drop (s.i + blocco)).take dim).length ≤ d.length :=
        (length_take_le' ..).trans ((length_drop ..).le.trans (Nat.sub_le ..))
      have inside : ∀ i i', Goes (paxGiro ((d.drop (s.i + blocco)).take dim)) i i' →
          i' ≤ d.length := by
        rw [goes_paxGiro]
        rintro i i' ⟨n, cifre, testo, record⟩
        exact record.dentro.trans less
      obtain ⟨r, ended⟩ := walk_of_not_returns inside (Nat.zero_le d.length)
        (mt returns_paxGiro.mp (senza s.i dim .refl here))
      rw [runs] at ended
      cases ended
  · intro s s' senza goes
    have round := giro_giro d (d.length + 1) s
    rw [goes] at round
    cases round with
    | avanti here _ place => exact senza.seguito ⟨_, _, here, place⟩

theorem senzaGiri_of_walk {s : Stato} {i k : Nat} (reached : ReflTransGen (Seguito d) i k)
    (atI : s.i = i) {fuel : Nat} (ended : walk (giro d giri) fuel s = some (some r)) {dim : Nat}
    (pax : membro d k = some (120, dim)) : ¬Gira ((d.drop (k + blocco)).take dim) := by
  induction reached using ReflTransGen.head_induction_on generalizing s fuel with
  | refl =>
    cases fuel with
    | zero => cases ended
    | succ fuel =>
      rw [← atI] at pax ⊢
      have round := giro_giro d giri s
      rw [walk] at ended
      generalize giro d giri s = next at round ended
      cases round with
      | fermo _ nothing => exact absurd (pax.symm.trans nothing) (Option.some_ne_none _)
      | preso => cases ended
      | avanti here _ _ reads =>
        obtain ⟨isTipo, isDim⟩ := Prod.mk.inj (Option.some.inj (here.symm.trans pax))
        obtain ⟨path, read⟩ := reads isTipo
        exact mt returns_paxGiro.mpr (not_returns_of_walk (isDim ▸ read))
  | head next _ ih =>
    cases fuel with
    | zero => cases ended
    | succ fuel =>
      obtain ⟨tipo, dim', spot, isNext⟩ := next
      rw [← atI] at spot isNext
      have round := giro_giro d giri s
      rw [walk] at ended
      generalize giro d giri s = next at round ended
      cases round with
      | fermo _ nothing => exact absurd (spot.symm.trans nothing) (Option.some_ne_none _)
      | preso => cases ended
      | avanti here _ place =>
        rw [(Prod.mk.inj (Option.some.inj (here.symm.trans spot))).2] at place
        exact ih (place.trans isNext.symm) ended

/-- The index is made, every member of it within its bounds, exactly when no pax header on the way
sends its records round. -/
theorem indice_limitato_iff (d : List UInt8) :
    (∃ giri r, indicizza giri d = some r ∧ ∀ v ∈ r.voci, Limitata d v) ↔ SenzaGiri d 0 := by
  constructor
  · rintro ⟨giri, r, isR, _⟩ k dim reached pax
    exact senzaGiri_of_walk reached rfl (Option.join_eq_some_iff.mp isR) pax
  · intro senza
    obtain ⟨r, made⟩ := indicizza_of_senzaGiri senza
    exact ⟨_, r, made, fun v mem => (indicizza_voci made v mem).1⟩

end Archive

/-- A header with a name of two bytes, of the given type and number of bytes (in octal), padded. -/
def testa (tipo : UInt8) (cifre controllo : List UInt8) : List UInt8 :=
  [97, 98] ++ replicate 122 0 ++ cifre ++ replicate (24 - cifre.length) 0 ++ controllo ++
    replicate (8 - controllo.length) 0 ++ [tipo] ++ replicate 355 0

/-- A pax header of 18 bytes: a record of six, and one whose length leads back to it. -/
def archivioTorto : List UInt8 :=
  testa 120 [50, 50] [49, 50, 51, 55] ++
    [54, 32, 97, 61, 98, 10] ++ [52, 50, 57, 52, 57, 54, 55, 50, 57, 48, 32, 10]

theorem indice_senza_fine : ¬∃ giri r, indicizza giri archivioTorto = some r ∧
    ∀ v ∈ r.voci, Limitata archivioTorto v := by
  rw [indice_limitato_iff]
  intro senza
  refine senza 0 18 .refl (by decide +kernel) (returns_paxGiro.mp ?_)
  have forth : Goes (paxGiro ((archivioTorto.drop (0 + blocco)).take 18)) 0 6 := by
    unfold Goes
    decide +kernel
  have back : Goes (paxGiro ((archivioTorto.drop (0 + blocco)).take 18)) 6 0 := by
    unfold Goes
    decide +kernel
  exact ⟨0, .refl, .tail (.single forth) back⟩

end ExOs.Extar
