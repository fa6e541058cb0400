import Mathlib.Data.List.Nodup
import Mathlib.Logic.Relation
import ExOs.Net.AscoltoRuns

/-!
# The table's events as changes

Each function of the table of the slots is a sequence of the changes of
`Cambio`.  Freeing, taking back and making room are cleaning; what waits on a
listener moves along its queue, or is answered.
-/

namespace ExOs.Net

open ExOs.Library Relation List Pulizia Tabella Posto

variable {t t' t'' : Tabella}

def Cambi : Tabella → Tabella → Prop := ReflTransGen Cambio

theorem Cambi.sana (cambi : Cambi t t') (sana : TabellaSana t) : TabellaSana t' := by
  induction cambi with
  | refl => exact sana
  | tail _ last ih => exact ih.cambio last

/-! ## Cleaning -/

theorem Pulizia.refl (t : Tabella) : Pulizia t t where
  nascite := rfl
  chiamate := rfl
  posti _ p found := .inr ⟨p, found, rfl⟩
  risposte := ⟨[], (append_nil _).symm, nessunErrore⟩
  gettoni _ := Nat.le_refl _

theorem Pulizia.trans (fst : Pulizia t t') (snd : Pulizia t' t'') : Pulizia t t'' := by
  refine ⟨snd.nascite.trans fst.nascite, snd.chiamate.trans fst.chiamate, ?_, ?_, ?_⟩
  · intro i p'' isP
    rcases snd.posti i p'' isP with free | ⟨p', wasP, same⟩
    · exact .inl free
    · rcases fst.posti i p' wasP with free | ⟨p, found, older⟩
      · exact .inl ((congrArg Vita.stato same).trans free)
      · exact .inr ⟨p, found, same.trans older⟩
  · obtain ⟨rs, isFirst, errori⟩ := fst.risposte
    obtain ⟨rs', isSecond, errori'⟩ := snd.risposte
    refine ⟨rs ++ rs', by rw [isSecond, isFirst, append_assoc], ?_⟩
    intro r mem
    exact (mem_append.mp mem).elim (errori r) (errori' r)
  · exact fun k => Nat.le_trans (snd.gettoni k) (fst.gettoni k)

theorem Pulizia.cambi (pulizia : Pulizia t t') : Cambi t t' :=
  .single (Cambio.pulizia pulizia)

variable {p' p c : Posto} {i j : Nat} {posti : List Posto} {pid scade : UInt32} {memoria : Bool}
  {old : Posto} {cliente : UInt32} {stato : StatoTcp} {ora : UInt32} {k : Nat} {codice : Int}

theorem Pulizia.viva (pulizia : Pulizia t t') (found : t'.posti[i]? = some p')
    (live : p'.stato ≠ .libera) : ∃ p, t.posti[i]? = some p ∧ p'.vita = p.vita :=
  (pulizia.posti i p' found).resolve_left live

theorem cambia_none (missing : t.posti[i]? = none) {f : Posto → Posto} : t.cambia i f = t := by
  rw [cambia, modify_eq_set_getElem?, missing]
  rfl

theorem azzerato_gettoni : azzerato.gettoni = [] := rfl

theorem accAnnulla_errori (p : Posto) (codice : Int) : ∀ r ∈ (accAnnulla p codice).2, r.Errore := by
  intro r mem
  obtain ⟨a, _, isR⟩ := mem_map.mp mem
  exact ⟨codice, by rw [← isR]⟩

theorem accAnnulla_chiamate (p : Posto) (codice : Int) :
    (accAnnulla p codice).2.map Risposta.chiamata = p.acc.map AttesaAcc.chiamata := by
  rw [accAnnulla, List.map_map]
  rfl

theorem acc_count_le (p : Posto) (k : Nat) :
    (p.acc.map AttesaAcc.chiamata).count k ≤ p.gettoni.count k := by
  rw [Posto.gettoni, count_append]
  exact Nat.le_add_left _ _

section

variable (found : t.posti[i]? = some p)

include found

theorem cambia_found (f : Posto → Posto) :
    t.cambia i f = { t with posti := t.posti.set i (f p) } := by
  rw [cambia, modify_eq_set_getElem?, found]
  rfl

theorem Pulizia.posto {rs : List Risposta}
    (same : p'.stato = .libera ∨ p'.vita = p.vita) (errori : ∀ r ∈ rs, r.Errore)
    (count : ∀ k, p'.gettoni.count k + (rs.map Risposta.chiamata).count k ≤ p.gettoni.count k) :
    Pulizia t { t with posti := t.posti.set i p', risposte := t.risposte ++ rs } := by
  refine ⟨rfl, rfl, ?_, ⟨rs, rfl, errori⟩, ?_⟩
  · intro j q isQ
    rcases posto_set isQ with ⟨isI, new⟩ | ⟨_, old⟩
    · rw [isI, new]
      exact same.imp_right fun equal => ⟨p, found, equal⟩
    · exact .inr ⟨q, old, rfl⟩
  · intro k
    have bound := count k
    generalize isNew :
      ({ t with posti := t.posti.set i p', risposte := t.risposte ++ rs } : Tabella) = t'
    have moved := gettoni_set found (congrArg Tabella.posti isNew).symm
      (congrArg Tabella.risposte isNew).symm k
    omega

theorem Pulizia.padroni (same : p'.vita = p.vita) (gettoni : p'.gettoni = p.gettoni) :
    Pulizia t { t with posti := t.posti.set i p' } := by
  have pulizia := posto found (.inr same) nessunErrore
    (fun k => Nat.le_of_eq (congrArg (List.count k) gettoni))
  rw [append_nil] at pulizia
  exact pulizia

theorem tcpSlotAzzera_posto : (tcpSlotAzzera t i).posti[i]? = some azzerato := by
  rw [tcpSlotAzzera, found]
  have bound := (List.getElem?_eq_some_iff.mp found).1
  exact getElem?_set_self bound

end

theorem tcpSlotAzzera_pulizia (t : Tabella) (i : Nat) : Pulizia t (tcpSlotAzzera t i) := by
  rw [tcpSlotAzzera]
  cases found : t.posti[i]? with
  | none => exact refl t
  | some p =>
    refine posto found (.inl rfl) (accAnnulla_errori p _) (fun k => ?_)
    rw [azzerato_gettoni, accAnnulla_chiamate, count_nil, Nat.zero_add]
    exact acc_count_le p k

theorem tcpSlotAzzera_altro (other : i ≠ j) : (tcpSlotAzzera t i).posti[j]? = t.posti[j]? := by
  rw [tcpSlotAzzera]
  cases t.posti[i]? with
  | none => rfl
  | some p => exact getElem?_set_ne other

theorem padroneLascia_stesso (p : Posto) (g : UInt32) :
    (p.padroneLascia g).vita = p.vita ∧ (p.padroneLascia g).gettoni = p.gettoni := by
  rw [padroneLascia]
  cases p.altri.getLast? with
  | none => split <;> exact ⟨rfl, rfl⟩
  | some ultimo =>
    dsimp only
    split
    · exact ⟨rfl, rfl⟩
    · split <;> exact ⟨rfl, rfl⟩

theorem padroniGiri_stesso (vivo : UInt32 → Bool) (p : Posto) (giri : Nat) :
    (padroniGiri vivo p giri).1.vita = p.vita ∧
      (padroniGiri vivo p giri).1.gettoni = p.gettoni := by
  induction giri generalizing p with
  | zero => exact ⟨rfl, rfl⟩
  | succ giri ih =>
    rw [padroniGiri]
    cases p.altri.getLast? with
    | none => exact ⟨rfl, rfl⟩
    | some g =>
      dsimp only
      split
      · exact ⟨rfl, rfl⟩
      · exact ih { p with altri := p.altri.dropLast }

theorem padroniVivi_stesso (vivo : UInt32 → Bool) (p : Posto) :
    (p.padroniVivi vivo).1.vita = p.vita ∧ (p.padroniVivi vivo).1.gettoni = p.gettoni := by
  rw [padroniVivi]
  split
  · exact ⟨rfl, rfl⟩
  · exact padroniGiri_stesso vivo p _

theorem padroniVivi_pulizia (s : Sistema) (found : t.posti[i]? = some p) :
    Pulizia t (t.cambia i fun _ => (p.padroniVivi s.vivo).1) := by
  have same := padroniVivi_stesso s.vivo p
  rw [cambia_found found]
  exact padroni found same.1 same.2

theorem connViva_pulizia (s : Sistema) (t : Tabella) (j : Nat) : Pulizia t (connViva s t j).1 := by
  rw [connViva]
  cases t.posti[j]? with
  | none => exact refl t
  | some c =>
    dsimp only
    generalize (if c.ascoltatore ≠ 0 ∧ ¬c.accettata then (tcpSuoAscoltatore t j c).getD j else j) =
      i
    cases found : t.posti[i]? with
    | none => exact refl t
    | some p => exact padroniVivi_pulizia s found

theorem connViva_vita {s : Sistema} {m : Nat} {c' : Posto}
    (found : (connViva s t j).1.posti[m]? = some c') :
    ∃ c, t.posti[m]? = some c ∧ c'.vita = c.vita := by
  rw [connViva] at found
  split at found
  case h_1 => exact ⟨c', found, rfl⟩
  case h_2 c _ =>
    dsimp only at found
    split at found
    case h_1 => exact ⟨c', found, rfl⟩
    case h_2 p isP =>
      rw [cambia_found isP] at found
      rcases posto_set found with ⟨isI, new⟩ | ⟨_, old⟩
      · rw [isI, new]
        exact ⟨p, isP, (padroniVivi_stesso s.vivo p).1⟩
      · exact ⟨c', old, rfl⟩

/-! ## Slots taken back -/

theorem riprendiUno_pulizia (s : Sistema) (r : Tabella × UInt32 × Nat) (i : Nat) :
    Pulizia r.1 (riprendiUno s r i).1 := by
  rw [riprendiUno]
  cases r.1.posti[i]? with
  | none => exact refl _
  | some c =>
    dsimp only
    split
    · exact refl _
    have viva := connViva_pulizia s r.1 i
    split
    · exact viva
    · exact viva.trans (tcpSlotAzzera_pulizia _ i)

theorem riprendi_foldl (s : Sistema) (posti : List Nat) (r : Tabella × UInt32 × Nat) :
    Pulizia r.1 (posti.foldl (riprendiUno s) r).1 := by
  induction posti generalizing r with
  | nil => exact refl _
  | cons i posti ih =>
    exact (riprendiUno_pulizia s r i).trans (ih (riprendiUno s r i))

theorem tcpRiprendiOrfane_pulizia (s : Sistema) (t : Tabella) :
    Pulizia t (tcpRiprendiOrfane s t).1 :=
  riprendi_foldl s _ (t, 0, 0)

theorem tcpReclaimClosed_pulizia {s : Sistema} : Pulizia t (tcpReclaimClosed s t).1 := by
  rw [tcpReclaimClosed]
  cases t.posti[s.vecchia]? with
  | none => exact refl t
  | some c =>
    dsimp only
    split
    · exact refl t
    · exact tcpSlotAzzera_pulizia t _

/-- The table after a search for a slot, and that the slot is there. -/
structure Trovato (t : Tabella) (r : Tabella × Option Nat) : Prop where
  pulizia : Pulizia t r.1
  posto : ∀ i, r.2 = some i → ∃ p, r.1.posti[i]? = some p

theorem Trovato.nessuno (pulizia : Pulizia t t') : Trovato t (t', none) :=
  ⟨pulizia, fun _ isSome => by cases isSome⟩

theorem Trovato.dopo {r : Tabella × Option Nat} (pulizia : Pulizia t t') (trovato : Trovato t' r) :
    Trovato t r :=
  ⟨pulizia.trans trovato.pulizia, trovato.posto⟩

theorem appende_pulizia : Pulizia t { t with posti := t.posti ++ [azzerato] } := by
  refine ⟨rfl, rfl, ?_, ⟨[], (append_nil _).symm, nessunErrore⟩, ?_⟩
  · intro i p found
    by_cases inside : i < t.posti.length
    · rw [getElem?_append_left inside] at found
      exact .inr ⟨p, found, rfl⟩
    have mem := mem_of_getElem?
      ((getElem?_append_right (Nat.le_of_not_lt inside)).symm.trans found)
    rw [mem_singleton.mp mem]
    exact .inl rfl
  · intro k
    rw [gettoni_count, gettoni_count, flatMap_append, count_append]
    exact Nat.le_refl _

section

variable (s : Sistema)

include s

theorem tcpSlotNuovo_trovato (t : Tabella) : Trovato t (tcpSlotNuovo s t) := by
  rw [tcpSlotNuovo]
  split
  · next inside =>
    refine ⟨refl t, fun i isSome => ?_⟩
    rw [← Option.some.inj isSome]
    exact ⟨_, getElem?_eq_getElem inside⟩
  split
  · exact Trovato.nessuno (refl t)
  · refine ⟨appende_pulizia, fun i isSome => ?_⟩
    rw [← Option.some.inj isSome]
    exact ⟨azzerato, getElem?_concat_length⟩

theorem riprova_trovato {quante : Nat} (pulizia : Pulizia t t') :
    Trovato t (if 0 < quante then tcpSlotNuovo s t' else (t', none)) := by
  split
  · exact (tcpSlotNuovo_trovato s t').dopo pulizia
  · exact Trovato.nessuno pulizia

theorem slotORiprende_trovato (t : Tabella) : Trovato t (slotORiprende s t) := by
  have fst := tcpSlotNuovo_trovato s t
  rw [slotORiprende]
  split
  · exact fst
  · exact riprova_trovato s (fst.pulizia.trans (tcpRiprendiOrfane_pulizia s _))

theorem slotPerSyn_trovato (t : Tabella) : Trovato t (slotPerSyn s t) := by
  have fst := tcpSlotNuovo_trovato s t
  rw [slotPerSyn]
  dsimp only
  split
  · exact fst
  have orphans := fst.pulizia.trans (tcpRiprendiOrfane_pulizia s _)
  split
  · exact (tcpSlotNuovo_trovato s _).dopo orphans
  · exact riprova_trovato s (orphans.trans tcpReclaimClosed_pulizia)

theorem slotPerApri_trovato (t : Tabella) : Trovato t (slotPerApri s t) := by
  have fst := tcpSlotNuovo_trovato s t
  rw [slotPerApri]
  dsimp only
  split
  · exact fst
  split
  case h_1 i finished =>
    refine ⟨fst.pulizia, fun j isSome => ?_⟩
    rw [← Option.some.inj isSome]
    have inside := mem_range.mp (mem_of_find?_eq_some finished)
    exact ⟨_, getElem?_eq_getElem inside⟩
  case h_2 =>
    have snd := (slotORiprende_trovato s (tcpSlotNuovo s t).1).dopo fst.pulizia
    split
    · exact snd
    · exact riprova_trovato s (snd.pulizia.trans tcpReclaimClosed_pulizia)

theorem occupataUno_pulizia (porta : UInt32) (r : Tabella × Bool) (i : Nat) :
    Pulizia r.1 (occupataUno s porta r i).1 := by
  rw [occupataUno]
  split
  · exact refl _
  · cases r.1.posti[i]? with
    | none => exact refl _
    | some p =>
      dsimp only
      have viva := connViva_pulizia s r.1 i
      split
      · split
        · exact viva
        · exact viva.trans (tcpRiprendiOrfane_pulizia s _)
      · exact refl _

theorem occupata_foldl (porta : UInt32) (posti : List Nat) (r : Tabella × Bool) :
    Pulizia r.1 (posti.foldl (occupataUno s porta) r).1 := by
  induction posti generalizing r with
  | nil => exact refl _
  | cons i posti ih =>
    exact (occupataUno_pulizia s porta r i).trans (ih (occupataUno s porta r i))

theorem ascoltaPosto_trovato (t : Tabella) (porta : UInt32) :
    Trovato t (ascoltaPosto s t porta) := by
  have searched := occupata_foldl s porta (range t.posti.length) (t, false)
  rw [ascoltaPosto]
  split
  · exact Trovato.nessuno (refl t)
  dsimp only
  split
  · exact Trovato.nessuno searched
  · exact (slotORiprende_trovato s _).dopo searched

end

theorem nasce_cambi (found : t.posti[i]? = some old)
    (nascente : Nascente (tcpSlotAzzera t i) i p) : Cambi t (t.nasce i p) :=
  (tcpSlotAzzera_pulizia t i).cambi.tail
    (Cambio.nasce (tcpSlotAzzera_posto found) rfl azzerato_gettoni nascente)

/-- When a listener is born, no connection waiting to be accepted remembers its slot. -/
def AscoltoLibero (s : Sistema) (t : Tabella) (porta : UInt32) : Prop :=
  ∀ i, (ascoltaPosto s t porta).2 = some i → Dimenticato (ascoltaPosto s t porta).1 i

theorem tcpAscolta_cambi (s : Sistema) (t : Tabella) (cliente porta : UInt32)
    (libero : AscoltoLibero s t porta) : Cambi t (tcpAscolta s t cliente porta) := by
  have trovato := ascoltaPosto_trovato s t porta
  rw [tcpAscolta]
  cases isSlot : (ascoltaPosto s t porta).2 with
  | none => exact trovato.pulizia.cambi
  | some i =>
    obtain ⟨old, found⟩ := trovato.posto i isSlot
    refine trovato.pulizia.cambi.trans (nasce_cambi found ?_)
    refine ⟨nofun, rfl, rfl, nofun, fun _ => ⟨rfl, ?_⟩⟩
    intro q mem qLive free
    obtain ⟨j, isQ⟩ := mem_iff_getElem?.mp mem
    obtain ⟨p, wasQ, same⟩ := (tcpSlotAzzera_pulizia _ i).viva isQ qLive
    have isStato : q.stato = p.stato := congrArg Vita.stato same
    have isFree : q.accettata = p.accettata := congrArg Vita.accettata same
    have isAsc : q.ascoltatore = p.ascoltatore := congrArg Vita.ascoltatore same
    rw [isAsc]
    exact libero i isSlot p (mem_of_getElem? wasQ) (isStato ▸ qLive) (isFree ▸ free)

theorem findIdx_posto {f : Posto → Bool}
    (found : posti[posti.findIdx f]? = some p) : f p = true := by
  obtain ⟨inside, isP⟩ := List.getElem?_eq_some_iff.mp found
  rw [← isP]
  exact findIdx_getElem

theorem tcpBussa_cambi {s : Sistema} {porta : UInt32} : Cambi t (tcpBussa s t porta) := by
  rw [tcpBussa]
  generalize isI : (t.posti.findIdx fun p => p.stato = .ascolta && p.porta = porta) = i
  cases found : t.posti[i]? with
  | none => exact (refl t).cambi
  | some asc =>
    have isPorta : asc.porta = porta := by
      have test := findIdx_posto (isI ▸ found)
      exact of_decide_eq_true (Bool.and_eq_true_iff.mp test).2
    have owners := padroniVivi_pulizia s found
    dsimp only
    split
    · exact (owners.trans (tcpRiprendiOrfane_pulizia s _)).cambi
    have trovato :=
      (slotPerSyn_trovato s (t.cambia i fun _ => (asc.padroniVivi s.vivo).1)).dopo owners
    split
    case h_1 => exact trovato.pulizia.cambi
    case h_2 k isSlot =>
      obtain ⟨old, isOld⟩ := trovato.posto k isSlot
      have fst := trovato.pulizia.trans (tcpSlotAzzera_pulizia _ k)
      refine fst.cambi.trans (nasce_cambi (tcpSlotAzzera_posto isOld) ?_)
      refine ⟨nofun, rfl, rfl, ?_, nofun⟩
      intro m asc' remembers other isAsc listens
      have isM : i = m := Nat.succ.inj remembers
      subst isM
      have live : asc'.stato ≠ .libera := by
        rw [listens]
        decide
      obtain ⟨p, wasAsc, same⟩ := (fst.trans (tcpSlotAzzera_pulizia _ k)).viva isAsc live
      rw [tcpSlotAzzera_altro (fun wrong => other wrong.symm)] at isAsc
      rw [isAsc]
      have samePorta : asc'.porta = p.porta := congrArg Vita.porta same
      rw [found] at wasAsc
      refine ⟨rfl, ?_⟩
      rw [samePorta, ← Option.some.inj wasAsc]
      exact isPorta.symm

theorem accAvanza_vita (p : Posto) : (accAvanza p).vita = p.vita := by
  rw [accAvanza]
  split
  · rfl
  · cases p.acc with
    | nil | cons a resto => rfl

theorem accAvanza_gettoni (p : Posto) (k : Nat) :
    (accAvanza { p with attesaPid := 0 }).gettoni.count k ≤
      (p.acc.map AttesaAcc.chiamata).count k := by
  rw [accAvanza, if_neg (fun wrong => wrong rfl)]
  cases isAcc : p.acc with
  | nil => exact Nat.le_of_eq (by rw [Posto.gettoni]; simp)
  | cons a resto =>
    rw [Posto.gettoni]
    dsimp only
    split
    · exact Nat.le_refl _
    · exact count_le_count_cons

theorem gettoni_attesa (waits : p.attesaPid ≠ 0 ∧ p.attesaTipo = .accetta) :
    p.gettoni.count k = [p.chiamata].count k + (p.acc.map AttesaAcc.chiamata).count k := by
  rw [Posto.gettoni, if_pos waits, count_append]

theorem attesa_cambi (nuova : Bool) (found : t.posti[i]? = some p)
    (same : p'.vita = p.vita)
    (count : ∀ k, p'.gettoni.count k ≤ p.gettoni.count k + nuove t nuova k) :
    Cambi t { t with
      posti := t.posti.set i p', chiamate := t.chiamate + if nuova then 1 else 0 } := by
  have cambio := Cambio.attese p' nuova found same nessunErrore count
  rw [append_nil] at cambio
  exact .single cambio

theorem accConsegna_cambi {s : Sistema} {giri : Nat} {asc : Posto}
    (isAsc : t.posti[i]? = some asc) (isC : t.posti[j]? = some c) (distinct : i ≠ j)
    (listens : asc.stato = .ascolta) (cLive : c.stato ≠ .libera) (cNotListens : c.stato ≠ .ascolta)
    (notHalf : c.stato ≠ .synRicev) (free : c.accettata = false)
    (remembers : c.ascoltatore = i + 1) :
    Cambi t (accConsegna s t i j giri) := by
  -- On the turns: each of them takes one off the queue, or gives the connection.
  induction giri generalizing t asc with
  | zero => exact .refl
  | succ giri ih =>
    rw [accConsegna, isAsc, isC]
    dsimp only
    split
    case isFalse => exact .refl
    case isTrue waits =>
      have sameVita : (accAvanza { asc with attesaPid := 0 }).vita = asc.vita := accAvanza_vita _
      have fewer := accAvanza_gettoni asc
      split
      · have isC' := cambia_found (t := t.risponde
          { chiamata := asc.chiamata, esito := .consegnata asc c }) isC (tcpDaiA s asc.attesaPid)
        have isAsc' : (t.posti.set j (tcpDaiA s asc.attesaPid c))[i]? = some asc := by
          rw [getElem?_set_ne (fun same => distinct same.symm)]
          exact isAsc
        rw [isC', cambia_found (by exact isAsc')]
        refine .single (Cambio.consegna _ _ _ false isAsc isC distinct listens cLive
          cNotListens free remembers sameVita rfl rfl notHalf (fun h => ?_))
        have bound := fewer h
        rw [gettoni_attesa waits]
        omega
      · rw [cambia_found isAsc]
        have gone : Cambi t
          { t with posti := t.posti.set i (accAvanza { asc with attesaPid := 0 }) } := by
          refine attesa_cambi false isAsc sameVita (fun h => ?_)
          have bound := fewer h
          rw [gettoni_attesa waits]
          omega
        have inside := (List.getElem?_eq_some_iff.mp isAsc).1
        refine gone.trans (ih (getElem?_set_self inside) ?_ ?_)
        · rw [getElem?_set_ne distinct]
          exact isC
        · exact (congrArg Vita.stato sameVita).trans listens

/-! ## Requests -/

theorem tcpDaId_some {s : Sistema} {id : Nat} (found : tcpDaId s t id cliente = some c) :
    id = id - 1 + 1 ∧ t.posti[id - 1]? = some c ∧ c.stato ≠ .libera := by
  rw [tcpDaId] at found
  split at found
  · cases found
  obtain ⟨isC, test⟩ := Option.filter_eq_some_iff.mp found
  refine ⟨by omega, isC, ?_⟩
  exact of_decide_eq_true (Bool.and_eq_true_iff.mp test).1

theorem accAccoda_vita (queued : accAccoda memoria p pid scade k = some p') : p'.vita = p.vita := by
  rw [accAccoda] at queued
  split at queued
  · rw [← Option.some.inj queued]
    rfl
  split at queued
  · rw [← Option.some.inj queued]
    rfl
  · cases queued

theorem accAccoda_gettoni (queued : accAccoda memoria p pid scade k = some p') {h : Nat} :
    p'.gettoni.count h ≤ p.gettoni.count h + [k].count h := by
  rw [accAccoda] at queued
  split at queued
  · rw [← Option.some.inj queued, Posto.gettoni]
    rw [map_modify_of_eq (fun a : AttesaAcc => { a with scade := scade }) _ (fun _ => rfl)]
    exact Nat.le_add_right _ _
  split at queued
  · rw [← Option.some.inj queued, Posto.gettoni, Posto.gettoni]
    rw [map_append, count_append, count_append, count_append]
    exact Nat.le_of_eq (Nat.add_assoc _ _ _).symm
  · cases queued

theorem daAccettare_stato (ready : daAccettare c = true) :
    c.stato ≠ .libera ∧ c.stato ≠ .ascolta ∧ c.stato ≠ .synRicev := by
  rcases Bool.or_eq_true_iff.mp ready with isOpen | isFin
  · rw [of_decide_eq_true isOpen]
    decide
  · rw [of_decide_eq_true isFin]
    decide

theorem set_posto_self (found : posti[i]? = some p) : posti.set i p = posti := by
  obtain ⟨inside, isP⟩ := List.getElem?_eq_some_iff.mp found
  rw [← isP]
  exact set_getElem_self inside

theorem rifiuta_cambi : Cambi t ({ t with chiamate := t.chiamate + 1 }.risponde
      { chiamata := t.chiamate, esito := .errore codice }) :=
  .single Cambio.rifiuto

theorem tcpAccetta_cambi {s : Sistema} {id : Nat}
    {timeoutMs ora : UInt32} : Cambi t (tcpAccetta s t cliente id timeoutMs ora) := by
  rw [tcpAccetta]
  dsimp only
  split
  case h_1 => exact rifiuta_cambi
  case h_2 asc isAsc =>
    obtain ⟨isId, (found : t.posti[id - 1]? = some asc), _⟩ := tcpDaId_some isAsc
    split
    · exact rifiuta_cambi
    rename_i notListens
    have listens : asc.stato = .ascolta := Classical.not_not.mp notListens
    split
    case h_1 c isC =>
      have test := findIdx_posto isC
      generalize t.posti.findIdx (pronta id) = j at isC
      obtain ⟨waiting, ready⟩ := Bool.and_eq_true_iff.mp test
      obtain ⟨notTaken, isListener⟩ := Bool.and_eq_true_iff.mp waiting
      obtain ⟨cLive, cNotListens, notHalf⟩ := daAccettare_stato ready
      have free : c.accettata = false := by simpa using notTaken
      have remembers : c.ascoltatore = id - 1 + 1 := (of_decide_eq_true isListener).trans isId
      have distinct : id - 1 ≠ j := by
        intro same
        rw [same] at found
        exact cNotListens (Option.some.inj (found.symm.trans isC) ▸ listens)
      have kept : (t.posti.set j (tcpDaiA s cliente c)).set (id - 1) asc =
          t.posti.set j (tcpDaiA s cliente c) := by
        apply set_posto_self
        rw [getElem?_set_ne (fun same => distinct same.symm)]
        exact found
      have given := Cambio.consegna asc (tcpDaiA s cliente c) t.chiamate true found isC distinct
        listens cLive cNotListens free remembers rfl rfl rfl notHalf (fun h => ?_)
      · rw [cambia_found (by exact isC)]
        rw [kept] at given
        exact .single given
      · exact Nat.le_of_eq (congrArg _ nuove_true.symm)
    case h_2 =>
      split
      · exact rifiuta_cambi
      split
      · split
        case h_1 => exact rifiuta_cambi
        case h_2 asc' queued =>
          rw [cambia_found (by exact found)]
          refine attesa_cambi true found (accAccoda_vita queued) (fun h => ?_)
          rw [nuove_true]
          exact accAccoda_gettoni queued
      · rw [cambia_found (by exact found)]
        refine attesa_cambi true found rfl (fun h => ?_)
        have kept := acc_count_le asc h
        rw [nuove_true, Posto.gettoni, count_append]
        dsimp only
        split
        · omega
        · rw [count_nil]
          omega

theorem rispostaAttesa_errori (p : Posto) (codice : Int) :
    ∀ r ∈ p.rispostaAttesa codice, r.Errore := by
  intro r mem
  rw [Posto.rispostaAttesa] at mem
  split at mem
  · rw [mem_singleton.mp mem]
    exact ⟨codice, rfl⟩
  · cases mem

theorem gettoni_rispostaAttesa (p : Posto) (codice : Int) (k : Nat) : p.gettoni.count k =
      ((p.rispostaAttesa codice).map Risposta.chiamata).count k +
        (p.acc.map AttesaAcc.chiamata).count k := by
  rw [Posto.gettoni, Posto.rispostaAttesa, count_append]
  split <;> rfl

theorem libero_gettoni (p : Posto) (k : Nat) :
    ({ p with attesaPid := 0 } : Posto).gettoni.count k =
      (p.acc.map AttesaAcc.chiamata).count k := by
  rw [Posto.gettoni, if_neg (fun wrong => wrong.1 rfl), nil_append]

theorem fineAttesa_cambi (found : t.posti[i]? = some old)
    (same : p.vita = old.vita) (gettoni : p.gettoni = old.gettoni) :
    Cambi t (fineAttesa t i p codice) := by
  refine .single (Cambio.attese _ false found ?_ (rispostaAttesa_errori p codice) (fun k => ?_))
  · split
    · exact (accAvanza_vita _).trans same
    · exact same
  · have all := gettoni_rispostaAttesa p codice k
    have next := accAvanza_gettoni p k
    have gone := libero_gettoni p k
    rw [← gettoni]
    split <;> omega

theorem statoChiuso_stato :
    statoChiuso stato ≠ .libera ∧ statoChiuso stato ≠ .ascolta ∧ statoChiuso stato ≠ .synRicev := by
  cases stato <;> decide

theorem chiude_cambio (found : t.posti[i]? = some c) (live : c.stato ≠ .libera)
    (notListens : c.stato ≠ .ascolta) :
    Cambi t { t with
      posti := t.posti.set i { c with chiusaCliente := true, stato := statoChiuso c.stato } } := by
  obtain ⟨newLive, newNotListens, newNotHalf⟩ := statoChiuso_stato
  exact .single (Cambio.stato found live notListens newLive newNotListens
    (fun isHalf => absurd isHalf newNotHalf))

theorem chiudiDavvero_cambi (found : t.posti[i]? = some c)
    (live : c.stato ≠ .libera) : Cambi t (chiudiDavvero t i c) := by
  rw [chiudiDavvero]
  split
  · exact .refl
  split
  case isTrue =>
    have told := Cambio.attese { c with attesaPid := 0 } false found rfl
      (rispostaAttesa_errori c (-econnaborted)) (fun k => ?_)
    · exact (ReflTransGen.single told).trans (tcpSlotAzzera_pulizia _ i).cambi
    · have all := gettoni_rispostaAttesa c (-econnaborted) k
      have gone := libero_gettoni c k
      omega
  case isFalse notListens => exact chiude_cambio found live notListens

theorem tcpChiudiPosto_cambi {s : Sistema} {id : Nat} {spegni : Bool} :
    Cambi t (tcpChiudiPosto s t cliente id spegni) := by
  rw [tcpChiudiPosto]
  split
  case h_1 => exact .refl
  case h_2 c isC =>
    obtain ⟨_, found, live⟩ := tcpDaId_some isC
    dsimp only
    split
    case isFalse => exact chiudiDavvero_cambi found live
    case isTrue =>
      have left := padroneLascia_stesso c (s.gruppo cliente)
      have alive := padroniVivi_stesso s.vivo (c.padroneLascia (s.gruppo cliente))
      generalize (c.padroneLascia (s.gruppo cliente)).padroniVivi s.vivo = r at alive
      have same := alive.1.trans left.1
      have gettoni := alive.2.trans left.2
      split
      · split
        · exact fineAttesa_cambi found same gettoni
        · exact (padroni found same gettoni).cambi
      · have inside := (List.getElem?_eq_some_iff.mp found).1
        have isStato : r.1.stato = c.stato := congrArg Vita.stato same
        have owner : Pulizia t { t with
            posti := t.posti.set (id - 1) { r.1 with proprietario := s.gruppo cliente } } :=
          padroni found same gettoni
        refine owner.cambi.trans (chiudiDavvero_cambi (getElem?_set_self inside) ?_)
        exact isStato ▸ live

theorem tcpSuoAscoltatore_some (found : tcpSuoAscoltatore t j c = some i) :
    i ≠ j ∧ c.ascoltatore = i + 1 ∧ ∃ asc, t.posti[i]? = some asc ∧ asc.stato = .ascolta := by
  rw [tcpSuoAscoltatore] at found
  split at found
  · cases found
  cases isAsc : t.posti[c.ascoltatore - 1]? with
  | none =>
    rw [isAsc] at found
    cases found
  | some asc =>
    rw [isAsc] at found
    dsimp only at found
    split at found
    · cases found
    rename_i good
    have isI := Option.some.inj found
    obtain ⟨other, listens, _⟩ := not_or.mp good |>.imp_right not_or.mp
    rw [isI] at other isAsc
    exact ⟨other, by omega, asc, isAsc, Classical.not_not.mp listens⟩

theorem tcpApre_cambi {s : Sistema} (sana : TabellaSana t) : Cambi t (tcpApre s t j) := by
  rw [tcpApre]
  split
  case h_1 => exact .refl
  case h_2 c isC =>
    split
    · exact .refl
    rename_i notHalf
    have isHalf : c.stato = .synRicev := Classical.not_not.mp notHalf
    have free := sana.mezzeAperte c (mem_of_getElem? isC) isHalf
    have opened : Cambi t { t with posti := t.posti.set j { c with stato := .aperta } } := by
      refine .single (Cambio.stato isC ?_ ?_ nofun nofun nofun)
      · rw [isHalf]
        decide
      · rw [isHalf]
        decide
    dsimp only
    split
    case h_1 => exact opened
    case h_2 i isListener =>
      obtain ⟨other, remembers, asc, isAsc, listens⟩ := tcpSuoAscoltatore_some isListener
      have inside := (List.getElem?_eq_some_iff.mp isC).1
      exact opened.trans (accConsegna_cambi isAsc (getElem?_set_self inside) other listens
        nofun nofun nofun free remembers)

theorem accScadenze_errori : ∀ r ∈ (accScadenze p ora).2, r.Errore := by
  intro r mem
  obtain ⟨a, _, isR⟩ := mem_map.mp mem
  exact ⟨-etimedout, by rw [← isR]⟩

theorem accScadenze_gettoni :
    (accScadenze p ora).1.gettoni.count k + ((accScadenze p ora).2.map Risposta.chiamata).count k =
      p.gettoni.count k := by
  have parts := count_map_filter AttesaAcc.chiamata (AttesaAcc.scaduta ora) p.acc k
  have told : (accScadenze p ora).2.map Risposta.chiamata =
      (p.acc.filter (AttesaAcc.scaduta ora)).map AttesaAcc.chiamata := by
    rw [accScadenze, List.map_map]
    rfl
  rw [told, Posto.gettoni, Posto.gettoni, count_append, count_append, ← parts,
    accScadenze, Nat.add_assoc]

theorem tcpGiro_cambi {s : Sistema} : Cambi t (tcpGiro s t j ora) := by
  rw [tcpGiro]
  split
  case h_1 => exact .refl
  case h_2 c isC =>
    split
    · exact (tcpSlotAzzera_pulizia t j).cambi
    split
    case isFalse => exact .refl
    case isTrue =>
      have late := Cambio.attese (accScadenze c ora).1 false isC rfl
        accScadenze_errori (fun k => Nat.le_of_eq accScadenze_gettoni)
      have inside := (List.getElem?_eq_some_iff.mp isC).1
      dsimp only
      split
      · exact (ReflTransGen.single late).trans
          (fineAttesa_cambi (getElem?_set_self inside) rfl rfl)
      · exact .single late

/-! ## Events -/

theorem mossa_ferma {a : StatoTcp} (still : a = .libera ∨ a = .ascolta)
    (moves : mossa a stato = true) : stato = a := by
  rcases still with isFree | listens
  · rw [isFree] at moves ⊢
    exact of_decide_eq_true moves
  · rw [listens] at moves ⊢
    exact of_decide_eq_true moves

theorem mossa_viva {a b : StatoTcp} (live : a ≠ .libera) (notListens : a ≠ .ascolta)
    (moves : mossa a b = true) : b ≠ .libera ∧ b ≠ .ascolta ∧ (b = .synRicev → a = .synRicev) := by
  cases a <;> cases b <;> first | contradiction | decide

theorem muove_cambi :
    Cambi t (t.cambia j fun c => if mossa c.stato stato then { c with stato := stato } else c) := by
  cases found : t.posti[j]? with
  | none =>
    rw [cambia_none found]
    exact .refl
  | some c =>
    rw [cambia_found found]
    split
    case isFalse => exact (padroni found rfl rfl).cambi
    case isTrue moves =>
      by_cases still : c.stato = .libera ∨ c.stato = .ascolta
      · have same := mossa_ferma still moves
        subst same
        exact (padroni found rfl rfl).cambi
      · obtain ⟨live, notListens⟩ := not_or.mp still
        obtain ⟨newLive, newNotListens, half⟩ := mossa_viva live notListens moves
        exact .single (Cambio.stato found live notListens newLive newNotListens half)

theorem finOrfana_cambi {s : Sistema} : Cambi t (passoTabella t (.finOrfana s j)) := by
  rw [passoTabella]
  split
  case h_1 => exact .refl
  case h_2 c isC =>
    split
    case isFalse => exact .refl
    case isTrue ready =>
      have viva := connViva_pulizia s t j
      dsimp only
      split
      · exact viva.cambi
      refine viva.cambi.trans ?_
      cases found : (connViva s t j).1.posti[j]? with
      | none => rw [cambia_none found]
      | some c' =>
        obtain ⟨p, wasC, same⟩ := connViva_vita found
        rw [isC] at wasC
        have isStato : c'.stato = p.stato := congrArg Vita.stato same
        rw [cambia_found found]
        refine chiude_cambio found ?_ ?_
        · rw [isStato, ← Option.some.inj wasC]
          rcases ready.1 with isOpen | isFin
          · rw [isOpen]
            decide
          · rw [isFin]
            decide
        · rw [isStato, ← Option.some.inj wasC]
          rcases ready.1 with isOpen | isFin
          · rw [isOpen]
            decide
          · rw [isFin]
            decide

theorem ricevi_cambi {s : Sistema} {id : Nat} :
    Cambi t (passoTabella t (.ricevi s cliente id)) := by
  rw [passoTabella]
  split
  case h_1 => exact .refl
  case h_2 c isC =>
    obtain ⟨_, found, _⟩ := tcpDaId_some isC
    split
    case isFalse => exact .refl
    case isTrue =>
      rw [cambia_found found]
      refine attesa_cambi false found rfl (fun k => ?_)
      have kept := acc_count_le c k
      rw [Posto.gettoni, if_neg (fun wrong => by cases wrong.2)]
      exact Nat.le_trans kept (Nat.le_add_right _ _)

theorem eredita_pulizia {s : Sistema} {id : Nat} :
    Pulizia t (passoTabella t (.eredita s cliente id pid)) := by
  rw [passoTabella]
  split
  case h_1 => exact refl t
  case h_2 c isC =>
    obtain ⟨_, found, _⟩ := tcpDaId_some isC
    split
    · exact refl t
    · rw [cambia_found found]
      exact padroni found rfl rfl

theorem apri_cambi (s : Sistema) (t : Tabella) (cliente porta : UInt32) (riesce : Bool) :
    Cambi t (passoTabella t (.apri s cliente porta riesce)) := by
  have trovato := slotPerApri_trovato s t
  rw [passoTabella]
  split
  case h_1 => exact trovato.pulizia.cambi
  case h_2 i isSlot =>
    split
    case isFalse => exact trovato.pulizia.cambi
    case isTrue =>
      obtain ⟨old, found⟩ := trovato.posto i isSlot
      exact trovato.pulizia.cambi.trans (nasce_cambi found ⟨nofun, rfl, rfl, nofun, nofun⟩)

/-- What is asked of an event: of `tcp_ascolta`, that its slot is not remembered. -/
def EventoLibero (t : Tabella) : EventoTabella → Prop
  | .ascolta s _ porta => AscoltoLibero s t porta
  | _ => True

theorem passoTabella_cambi (sana : TabellaSana t) {e : EventoTabella} (libero : EventoLibero t e) :
    Cambi t (passoTabella t e) := by
  cases e with
  | ascolta s cliente porta => exact tcpAscolta_cambi s t cliente porta libero
  | bussa s porta => exact tcpBussa_cambi
  | apre s j => exact tcpApre_cambi sana
  | muove j stato => exact muove_cambi
  | accetta s cliente id timeoutMs ora => exact tcpAccetta_cambi
  | chiudi s cliente id spegni => exact tcpChiudiPosto_cambi
  | giro s j ora => exact tcpGiro_cambi
  | finOrfana s j => exact finOrfana_cambi
  | ricevi s cliente id => exact ricevi_cambi
  | eredita s cliente id pid => exact eredita_pulizia.cambi
  | apri s cliente porta riesce => exact apri_cambi s t cliente porta riesce

/-! ## Runs -/

def Tabella.vuota : Tabella := { posti := [], nascite := 0, chiamate := 0, risposte := [] }

theorem vuota_sana : TabellaSana vuota := by
  refine ⟨⟨?_, ?_, ?_, ?_⟩, ?_, nodup_nil, ?_, fun k => Nat.zero_le 1, ?_⟩
  · intro i j p q found
    cases found
  · intro p mem
    cases mem
  · intro p mem
    cases mem
  · intro i j asc c found
    cases found
  · intro r mem
    cases mem
  · intro r mem
    cases mem
  · intro k mem
    cases mem

/-- Every answer gives a connection born for the listener it was asked of, no connection
is given twice and no call is answered twice. -/
structure AccettaFedele (t : Tabella) : Prop where
  sue : ∀ r ∈ t.risposte, r.Giusta
  unaVolta : (t.risposte.filterMap Risposta.data).Nodup
  unaRisposta : (t.risposte.map Risposta.chiamata).Nodup

theorem TabellaSana.fedele (sana : TabellaSana t) : AccettaFedele t := by
  refine ⟨sana.giuste, sana.dateUnaVolta, nodup_iff_count_le_one.mpr (fun k => ?_)⟩
  have all := sana.gettoni k
  rw [gettoni_count] at all
  omega

/-- In every run whose listeners are born in slots that nothing remembers. -/
theorem accetta_fedele (reached : Reached (fun t => t = vuota)
      (fun t e t' => EventoLibero t e ∧ t' = passoTabella t e) t) : AccettaFedele t := by
  refine TabellaSana.fedele (Reached.invariant TabellaSana ?_ ?_ reached)
  · intro t isStart
    rw [isStart]
    exact vuota_sana
  · intro t e t' sana step
    rw [step.2]
    exact (passoTabella_cambi sana step.1).sana sana

def sistemaQuieto : Sistema :=
  { vivo := fun g => g ≠ 0, gruppo := id, ipcSend := fun _ => true, memoria := true,
    sciolto := fun _ => true, vecchia := 0, tcpMax := 64 }

/-- A call waits on port 80, a connection opens for it, and a second call finds none. -/
def eventiAccolti : List EventoTabella :=
  [.ascolta sistemaQuieto 7 80, .accetta sistemaQuieto 7 1 1000 1, .bussa sistemaQuieto 80,
    .apre sistemaQuieto 1, .accetta sistemaQuieto 7 1 0 2]

theorem accetta_fedele_accolti :
    (eventiAccolti.foldl passoTabella vuota).risposte.length = 2 ∧
      AccettaFedele (eventiAccolti.foldl passoTabella vuota) := by
  have start : Reached (fun t => t = vuota)
      (fun t e t' => EventoLibero t e ∧ t' = passoTabella t e) vuota :=
    Reached.start rfl
  refine ⟨by decide +kernel, accetta_fedele (start.foldl eventiAccolti ?_)⟩
  refine ⟨?_, trivial, trivial, trivial, trivial, trivial⟩
  intro i isSlot q mem live
  have fresh : ∀ p ∈ (ascoltaPosto sistemaQuieto vuota 80).1.posti, p.stato = .libera := by
    decide +kernel
  exact absurd (fresh q mem) live

/-- The listener of port 80 closes while a connection waits, one on port 81 takes its slot,
and its `accept()` is given the connection of port 80. -/
def eventiEreditati : List EventoTabella :=
  [.ascolta sistemaQuieto 7 80, .bussa sistemaQuieto 80, .apre sistemaQuieto 1,
    .chiudi sistemaQuieto 7 1 false, .ascolta sistemaQuieto 9 81, .accetta sistemaQuieto 9 1 0 5]

theorem accetta_infedele :
    Reached (fun t => t = vuota) (fun t e t' => t' = passoTabella t e)
        (eventiEreditati.foldl passoTabella vuota) ∧
      (eventiEreditati.foldl passoTabella vuota).risposte =
        [{ chiamata := 0, esito := .conn 1 2 0 81 80 }] ∧
      ¬AccettaFedele (eventiEreditati.foldl passoTabella vuota) := by
  have answer : (eventiEreditati.foldl passoTabella vuota).risposte =
      [{ chiamata := 0, esito := .conn 1 2 0 81 80 }] := by
    decide +kernel
  have start : Reached (fun t => t = vuota) (fun t e t' => t' = passoTabella t e)
      vuota :=
    Reached.start rfl
  refine ⟨start.foldlAll eventiEreditati, answer, fun fedele => ?_⟩
  have wrong := fedele.sue { chiamata := 0, esito := .conn 1 2 0 81 80 } (by
    exact mem_singleton.mpr rfl)
  nomatch wrong.1

end ExOs.Net
