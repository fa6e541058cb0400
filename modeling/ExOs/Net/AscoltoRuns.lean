import ExOs.Library.Runs
import ExOs.Library.Tokens
import ExOs.Net.Ascolto

/-!
# What accept gives, over whole runs

Every event is a few changes of six kinds, and each keeps one invariant: what
lives in the slots has a number of its own, an answered connection is taken, a
call is in one place only, and a connection not yet taken belongs to the
listener whose slot it remembers.  The last needs one thing of `tcp_ascolta`:
that an earlier listener of the slot has left no such connection.
-/

namespace ExOs.Net

open ExOs.Library List

def Posto.gettoni (p : Posto) : List Nat :=
  (if p.attesaPid ≠ 0 ∧ p.attesaTipo = .accetta then [p.chiamata] else []) ++
    p.acc.map AttesaAcc.chiamata

def Tabella.gettoni (t : Tabella) : List Nat :=
  t.risposte.map Risposta.chiamata ++ t.posti.flatMap Posto.gettoni

def Risposta.Errore (r : Risposta) : Prop := ∃ codice, r.esito = .errore codice

/-- What lives in a slot, without its owners and those who wait. -/
structure Vita where
  stato : StatoTcp
  porta : UInt32
  ascoltatore : Nat
  accettata : Bool
  chiusaCliente : Bool
  nascita : Nat
  figlia : Nat

def Posto.vita (p : Posto) : Vita :=
  { stato := p.stato, porta := p.porta, ascoltatore := p.ascoltatore, accettata := p.accettata,
    chiusaCliente := p.chiusaCliente, nascita := p.nascita, figlia := p.figlia }

/-- Slots are freed and owners forgotten; nothing else. -/
structure Pulizia (t t' : Tabella) : Prop where
  nascite : t'.nascite = t.nascite
  chiamate : t'.chiamate = t.chiamate
  posti : ∀ (i : Nat) (p' : Posto), t'.posti[i]? = some p' → p'.stato = .libera ∨
    ∃ p, t.posti[i]? = some p ∧ p'.vita = p.vita
  risposte : ∃ rs, t'.risposte = t.risposte ++ rs ∧ ∀ r ∈ rs, r.Errore
  gettoni : ∀ k, t'.gettoni.count k ≤ t.gettoni.count k

/-- No connection that nobody has taken remembers the slot. -/
def Dimenticato (t : Tabella) (i : Nat) : Prop :=
  ∀ q ∈ t.posti, q.stato ≠ .libera → q.accettata = false → q.ascoltatore ≠ i + 1

/-- What may be born in the slot `i`. -/
structure Nascente (t : Tabella) (i : Nat) (p : Posto) : Prop where
  viva : p.stato ≠ .libera
  fresca : p.accettata = false
  sola : p.gettoni = []
  figlia : ∀ (k : Nat) (asc : Posto), p.ascoltatore = k + 1 → k ≠ i → t.posti[k]? = some asc →
    asc.stato = .ascolta → p.figlia = asc.nascita ∧ p.porta = asc.porta
  ascolta : p.stato = .ascolta → p.ascoltatore = 0 ∧ Dimenticato t i

def nuove (t : Tabella) (nuova : Bool) (k : Nat) : Nat := if nuova ∧ k = t.chiamate then 1 else 0

inductive Cambio : Tabella → Tabella → Prop
  | pulizia {t t' : Tabella} : Pulizia t t' → Cambio t t'
  | nasce {t : Tabella} {i : Nat} {old p : Posto} : t.posti[i]? = some old → old.stato = .libera →
      old.gettoni = [] → Nascente t i p →
      Cambio t { t with
        posti := t.posti.set i { p with nascita := t.nascite }, nascite := t.nascite + 1 }
  | stato {t : Tabella} {i : Nat} {p : Posto} {stato : StatoTcp} {chiusa : Bool} :
      t.posti[i]? = some p → p.stato ≠ .libera → p.stato ≠ .ascolta → stato ≠ .libera →
      stato ≠ .ascolta → (stato = .synRicev → p.stato = .synRicev) →
      Cambio t { t with posti := t.posti.set i { p with stato := stato, chiusaCliente := chiusa } }
  | attese {t : Tabella} {i : Nat} {p : Posto} {rs : List Risposta} (p' : Posto) (nuova : Bool) :
      t.posti[i]? = some p → p'.vita = p.vita → (∀ r ∈ rs, r.Errore) →
      (∀ k, p'.gettoni.count k + (rs.map Risposta.chiamata).count k ≤
        p.gettoni.count k + nuove t nuova k) →
      Cambio t { t with
        posti := t.posti.set i p', risposte := t.risposte ++ rs,
        chiamate := t.chiamate + if nuova then 1 else 0 }
  | rifiuto {t : Tabella} {codice : Int} :
      Cambio t { t with
        risposte := t.risposte ++ [{ chiamata := t.chiamate, esito := .errore codice }],
        chiamate := t.chiamate + 1 }
  | consegna {t : Tabella} {i j : Nat} {asc c : Posto} (asc' c' : Posto) (k : Nat) (nuova : Bool) :
      t.posti[i]? = some asc → t.posti[j]? = some c → i ≠ j → asc.stato = .ascolta →
      c.stato ≠ .libera → c.stato ≠ .ascolta → c.accettata = false → c.ascoltatore = i + 1 →
      asc'.vita = asc.vita →
      c'.vita = { c.vita with accettata := true } → c'.gettoni = c.gettoni → c.stato ≠ .synRicev →
      (∀ h, asc'.gettoni.count h + [k].count h ≤ asc.gettoni.count h + nuove t nuova h) →
      Cambio t { t with
        posti := (t.posti.set j c').set i asc',
        risposte := t.risposte ++ [{ chiamata := k, esito := .consegnata asc c }],
        chiamate := t.chiamate + if nuova then 1 else 0 }

/-! ## The invariant -/

def Risposta.data (r : Risposta) : Option Nat :=
  match r.esito with
  | .errore _ => none
  | .conn nascita .. => some nascita

/-- The answer gives a connection of the listener it was asked of. -/
def Risposta.Giusta (r : Risposta) : Prop :=
  match r.esito with
  | .errore _ => True
  | .conn _ ascoltatore figlia portaAscoltatore porta =>
    figlia = ascoltatore ∧ porta = portaAscoltatore

section Slots

variable {t t' : Tabella} {posti : List Posto}

theorem posto_set {i j : Nat} {new q : Posto} (found : (posti.set i new)[j]? = some q) :
    (j = i ∧ q = new) ∨ (j ≠ i ∧ posti[j]? = some q) := by
  rw [List.getElem?_set] at found
  split at found
  · next same =>
    split at found
    · exact .inl ⟨same.symm, (Option.some.inj found).symm⟩
    · cases found
  · next same =>
    exact .inr ⟨fun wrong => same wrong.symm, found⟩

/-- What lives in the slot is the same, perhaps further on. -/
structure Segue (q q' : Posto) : Prop where
  porta : q'.porta = q.porta
  ascoltatore : q'.ascoltatore = q.ascoltatore
  nascita : q'.nascita = q.nascita
  figlia : q'.figlia = q.figlia
  viva : q'.stato ≠ .libera → q.stato ≠ .libera
  ascolta : q'.stato = .ascolta → q.stato = .ascolta
  mezzaAperta : q'.stato = .synRicev → q.stato = .synRicev ∧ q'.accettata = q.accettata
  accettata : q'.accettata = false → q.accettata = false

theorem Segue.refl (q : Posto) : Segue q q :=
  ⟨rfl, rfl, rfl, rfl, id, id, fun isHalf => ⟨isHalf, rfl⟩, id⟩

def Seguito (t t' : Tabella) : Prop :=
  ∀ (j : Nat) (q' : Posto), t'.posti[j]? = some q' → q'.stato = .libera ∨
    ∃ q, t.posti[j]? = some q ∧ Segue q q'

theorem Seguito.posto (seguito : Seguito t t') {j : Nat} {q' : Posto}
    (found : t'.posti[j]? = some q')
    (viva : q'.stato ≠ .libera) : ∃ q, t.posti[j]? = some q ∧ Segue q q' :=
  (seguito j q' found).resolve_left viva

theorem Segue.vita {q q' : Posto} (same : q'.vita = q.vita) : Segue q q' := by
  have isStato : q'.stato = q.stato := congrArg Vita.stato same
  have isAccettata : q'.accettata = q.accettata := congrArg Vita.accettata same
  refine ⟨congrArg Vita.porta same, congrArg Vita.ascoltatore same, congrArg Vita.nascita same,
    congrArg Vita.figlia same, ?_, ?_, ?_, ?_⟩
  · exact fun live => isStato ▸ live
  · exact fun listens => isStato ▸ listens
  · exact fun isHalf => ⟨isStato ▸ isHalf, isAccettata⟩
  · exact fun free => isAccettata ▸ free

/-- The parts of the invariant that are about the slots alone. -/
structure PostiSani (t : Tabella) : Prop where
  unici : ∀ (i j : Nat) (p q : Posto), t.posti[i]? = some p → t.posti[j]? = some q →
    p.stato ≠ .libera → q.stato ≠ .libera → p.nascita = q.nascita → i = j
  limite : ∀ p ∈ t.posti, p.stato ≠ .libera → p.nascita < t.nascite
  mezzeAperte : ∀ p ∈ t.posti, p.stato = .synRicev → p.accettata = false
  sue : ∀ (i j : Nat) (asc c : Posto), t.posti[i]? = some asc → t.posti[j]? = some c →
    asc.stato = .ascolta → c.stato ≠ .libera → c.accettata = false → c.ascoltatore = i + 1 →
    c.figlia = asc.nascita ∧ c.porta = asc.porta

theorem PostiSani.seguito (sani : PostiSani t) (seguito : Seguito t t')
    (nascite : t'.nascite = t.nascite) : PostiSani t' := by
  constructor
  · intro i j p' q' isP isQ pLive qLive same
    obtain ⟨p, wasP, pSegue⟩ := seguito.posto isP pLive
    obtain ⟨q, wasQ, qSegue⟩ := seguito.posto isQ qLive
    rw [pSegue.nascita, qSegue.nascita] at same
    exact sani.unici i j p q wasP wasQ (pSegue.viva pLive) (qSegue.viva qLive) same
  · intro p' mem pLive
    obtain ⟨j, isP⟩ := mem_iff_getElem?.mp mem
    obtain ⟨p, wasP, pSegue⟩ := seguito.posto isP pLive
    rw [pSegue.nascita, nascite]
    exact sani.limite p (mem_of_getElem? wasP) (pSegue.viva pLive)
  · intro p' mem isHalf
    obtain ⟨j, isP⟩ := mem_iff_getElem?.mp mem
    have pLive : p'.stato ≠ .libera := by
      rw [isHalf]
      decide
    obtain ⟨p, wasP, pSegue⟩ := seguito.posto isP pLive
    obtain ⟨wasHalf, same⟩ := pSegue.mezzaAperta isHalf
    rw [same]
    exact sani.mezzeAperte p (mem_of_getElem? wasP) wasHalf
  · intro i j asc' c' isAsc isC listens cLive free remembers
    have ascLive : asc'.stato ≠ .libera := by
      rw [listens]
      decide
    obtain ⟨asc, wasAsc, ascSegue⟩ := seguito.posto isAsc ascLive
    obtain ⟨c, wasC, cSegue⟩ := seguito.posto isC cLive
    rw [cSegue.ascoltatore] at remembers
    rw [cSegue.figlia, cSegue.porta, ascSegue.nascita, ascSegue.porta]
    exact sani.sue i j asc c wasAsc wasC (ascSegue.ascolta listens) (cSegue.viva cLive)
      (cSegue.accettata free) remembers

def Data (t : Tabella) (x : Nat) : Prop :=
  x < t.nascite ∧ ∀ p ∈ t.posti, p.stato ≠ .libera → p.nascita = x → p.accettata = true

theorem Data.seguito {x : Nat} (data : Data t x) (seguito : Seguito t t')
    (nascite : t'.nascite = t.nascite) : Data t' x := by
  refine ⟨by rw [nascite]; exact data.1, ?_⟩
  intro p' mem pLive isX
  obtain ⟨j, isP⟩ := mem_iff_getElem?.mp mem
  obtain ⟨p, wasP, pSegue⟩ := seguito.posto isP pLive
  rw [pSegue.nascita] at isX
  have taken := data.2 p (mem_of_getElem? wasP) (pSegue.viva pLive) isX
  by_contra notTaken
  have wasFree := pSegue.accettata (Bool.eq_false_iff.mpr notTaken)
  nomatch taken.symm.trans wasFree

theorem seguito_set {i : Nat} {p p' : Posto} (isPosti : t'.posti = posti.set i p')
    (same : posti = t.posti) (found : t.posti[i]? = some p)
    (segue : Segue p p') : Seguito t t' := by
  intro j q' isQ
  rw [isPosti, same] at isQ
  rcases posto_set isQ with ⟨isI, isP⟩ | ⟨_, old⟩
  · rw [isI, isP]
    exact .inr ⟨p, found, segue⟩
  · exact .inr ⟨q', old, Segue.refl q'⟩

theorem PostiSani.nasce {i : Nat} {p : Posto} (sani : PostiSani t) (nascente : Nascente t i p) :
    PostiSani { t with
      posti := t.posti.set i { p with nascita := t.nascite }, nascite := t.nascite + 1 } := by
  constructor
  · intro j k q r isQ isR qLive rLive same
    rcases posto_set isQ with ⟨isJ, qNew⟩ | ⟨_, qOld⟩ <;>
      rcases posto_set isR with ⟨isK, rNew⟩ | ⟨_, rOld⟩
    · rw [isJ, isK]
    · have below := sani.limite r (mem_of_getElem? rOld) rLive
      rw [← same, qNew] at below
      exact absurd below (Nat.lt_irrefl _)
    · have below := sani.limite q (mem_of_getElem? qOld) qLive
      rw [same, rNew] at below
      exact absurd below (Nat.lt_irrefl _)
    · exact sani.unici j k q r qOld rOld qLive rLive same
  · intro q mem qLive
    rcases mem_or_eq_of_mem_set mem with old | new
    · exact Nat.lt_succ_of_lt (sani.limite q old qLive)
    · rw [new]
      exact Nat.lt_succ_self _
  · intro q mem isHalf
    rcases mem_or_eq_of_mem_set mem with old | new
    · exact sani.mezzeAperte q old isHalf
    · rw [new]
      exact nascente.fresca
  · intro k j asc c isAsc isC listens cLive free remembers
    rcases posto_set isAsc with ⟨isK, ascNew⟩ | ⟨notK, ascOld⟩ <;>
      rcases posto_set isC with ⟨isJ, cNew⟩ | ⟨notJ, cOld⟩
    · rw [ascNew] at listens
      rw [cNew] at remembers
      have noListener := (nascente.ascolta listens).1
      rw [noListener] at remembers
      cases remembers
    · rw [ascNew] at listens
      rw [isK] at remembers
      exact absurd remembers ((nascente.ascolta listens).2 c (mem_of_getElem? cOld) cLive free)
    · rw [cNew] at remembers ⊢
      exact nascente.figlia k asc remembers notK ascOld listens
    · exact sani.sue k j asc c ascOld cOld listens cLive free remembers

end Slots

structure TabellaSana (t : Tabella) : Prop extends PostiSani t where
  date : ∀ r ∈ t.risposte, ∀ x, r.data = some x → Data t x
  dateUnaVolta : (t.risposte.filterMap Risposta.data).Nodup
  giuste : ∀ r ∈ t.risposte, r.Giusta
  gettoni : ∀ k, t.gettoni.count k ≤ 1
  gettoniLimite : ∀ k ∈ t.gettoni, k < t.chiamate

section Changes

variable {t t' : Tabella}

/-- Calls are never copied, and at most one begins. -/
structure GettoniSani (t : Tabella) : Prop where
  una : ∀ k, t.gettoni.count k ≤ 1
  limite : ∀ k ∈ t.gettoni, k < t.chiamate

theorem GettoniSani.passo (sani : GettoniSani t) (nuova : Bool)
    (count : ∀ k, t'.gettoni.count k ≤ t.gettoni.count k + nuove t nuova k)
    (chiamate : t'.chiamate = t.chiamate + if nuova then 1 else 0) : GettoniSani t' := by
  have fresh : t.gettoni.count t.chiamate = 0 :=
    count_eq_zero.mpr fun mem => Nat.lt_irrefl _ (sani.limite _ mem)
  constructor
  · intro k
    have bound := count k
    have old := sani.una k
    rw [nuove] at bound
    split at bound
    case isTrue isNew =>
      rw [isNew.2, fresh] at bound
      rw [isNew.2]
      exact bound
    case isFalse => omega
  · intro k mem
    have pos := count_pos_iff.mpr mem
    have bound := count k
    rw [nuove] at bound
    rw [chiamate]
    split at bound
    case isTrue isNew =>
      rw [if_pos isNew.1, isNew.2]
      exact Nat.lt_succ_self _
    case isFalse =>
      have old := sani.limite k (count_pos_iff.mp (by omega))
      omega

theorem gettoni_count {k : Nat} : t.gettoni.count k =
      (t.risposte.map Risposta.chiamata).count k + (t.posti.flatMap Posto.gettoni).count k :=
  count_append

variable {p : Posto} {i : Nat} {rs : List Risposta}

theorem gettoni_set {p' : Posto} (found : t.posti[i]? = some p)
    (posti : t'.posti = t.posti.set i p') (risposte : t'.risposte = t.risposte ++ rs) (k : Nat) :
    t'.gettoni.count k + p.gettoni.count k =
      t.gettoni.count k + p'.gettoni.count k + (rs.map Risposta.chiamata).count k := by
  have moved := count_flatMap_set Posto.gettoni found p' k
  rw [gettoni_count, gettoni_count, posti, risposte, map_append, count_append]
  omega

theorem data_errore {r : Risposta} (errore : r.Errore) : r.data = none ∧ r.Giusta := by
  obtain ⟨codice, isErrore⟩ := errore
  rw [Risposta.data, Risposta.Giusta, isErrore]
  exact ⟨rfl, trivial⟩

theorem filterMap_errori (errori : ∀ r ∈ rs, r.Errore) : rs.filterMap Risposta.data = [] :=
  filterMap_eq_nil_iff.mpr fun r mem => (data_errore (errori r mem)).1

theorem nessunErrore : ∀ r ∈ ([] : List Risposta), r.Errore := fun _ mem => absurd mem not_mem_nil

theorem nuove_true {k : Nat} : nuove t true k = [t.chiamate].count k := by
  rw [nuove, count_singleton]
  by_cases same : k = t.chiamate
  · rw [if_pos ⟨rfl, same⟩, same, if_pos (beq_self_eq_true _)]
  · rw [if_neg (fun both => same both.2), if_neg (fun equal => same (beq_iff_eq.mp equal).symm)]

section

variable (sana : TabellaSana t)

include sana

theorem TabellaSana.gettoniSani : GettoniSani t := ⟨sana.gettoni, sana.gettoniLimite⟩

theorem TabellaSana.errori (posti : PostiSani t')
    (date : ∀ x, Data t x → Data t' x) (isRisposte : t'.risposte = t.risposte ++ rs)
    (errori : ∀ r ∈ rs, r.Errore) (gettoni : GettoniSani t') : TabellaSana t' := by
  refine ⟨posti, ?_, ?_, ?_, gettoni.una, gettoni.limite⟩
  · intro r mem x isX
    rw [isRisposte] at mem
    rcases mem_append.mp mem with old | new
    · exact date x (sana.date r old x isX)
    · rw [(data_errore (errori r new)).1] at isX
      cases isX
  · rw [isRisposte, filterMap_append, filterMap_errori errori, append_nil]
    exact sana.dateUnaVolta
  · intro r mem
    rw [isRisposte] at mem
    rcases mem_append.mp mem with old | new
    · exact sana.giuste r old
    · exact (data_errore (errori r new)).2

theorem TabellaSana.seguito (nuova : Bool) (seguito : Seguito t t')
    (nascite : t'.nascite = t.nascite) (isRisposte : t'.risposte = t.risposte ++ rs)
    (errori : ∀ r ∈ rs, r.Errore)
    (count : ∀ k, t'.gettoni.count k ≤ t.gettoni.count k + nuove t nuova k)
    (chiamate : t'.chiamate = t.chiamate + if nuova then 1 else 0) : TabellaSana t' :=
  sana.errori (sana.toPostiSani.seguito seguito nascite)
    (fun _ data => data.seguito seguito nascite) isRisposte errori
    (sana.gettoniSani.passo nuova count chiamate)

theorem TabellaSana.pulizia (pulizia : Pulizia t t') : TabellaSana t' := by
  have seguito : Seguito t t' := by
    intro j q' isQ
    rcases pulizia.posti j q' isQ with free | ⟨q, wasQ, same⟩
    · exact .inl free
    · exact .inr ⟨q, wasQ, Segue.vita same⟩
  obtain ⟨rs, isRisposte, errori⟩ := pulizia.risposte
  refine sana.seguito false seguito pulizia.nascite isRisposte errori (fun k => ?_) pulizia.chiamate
  exact Nat.le_trans (pulizia.gettoni k) (Nat.le_add_right _ _)

theorem TabellaSana.nasce {old : Posto}
    (found : t.posti[i]? = some old) (empty : old.gettoni = []) (nascente : Nascente t i p)
    (posti : t'.posti = t.posti.set i { p with nascita := t.nascite })
    (nascite : t'.nascite = t.nascite + 1) (chiamate : t'.chiamate = t.chiamate)
    (risposte : t'.risposte = t.risposte) : TabellaSana t' := by
  have risposte' : t'.risposte = t.risposte ++ [] := by rw [risposte, append_nil]
  refine sana.errori ?_ (fun x data => ?_) risposte' nessunErrore ?_
  · have sani := sana.toPostiSani.nasce nascente
    exact ⟨posti ▸ sani.unici, by rw [posti, nascite]; exact sani.limite,
      posti ▸ sani.mezzeAperte, posti ▸ sani.sue⟩
  · refine ⟨by rw [nascite]; exact Nat.lt_succ_of_lt data.1, ?_⟩
    intro q mem qLive isX
    rw [posti] at mem
    rcases mem_or_eq_of_mem_set mem with was | new
    · exact data.2 q was qLive isX
    · have below := data.1
      rw [← isX, new] at below
      exact absurd below (Nat.lt_irrefl _)
  · refine sana.gettoniSani.passo false (fun k => ?_) chiamate
    have moved := gettoni_set found posti risposte' k
    have absent : ({ p with nascita := t.nascite } : Posto).gettoni = [] := nascente.sola
    rw [empty, absent] at moved
    exact Nat.le_trans (Nat.le_of_eq moved) (Nat.le_add_right _ _)

theorem TabellaSana.unPosto {p' : Posto} (nuova : Bool)
    (found : t.posti[i]? = some p) (segue : Segue p p') (errori : ∀ r ∈ rs, r.Errore)
    (count : ∀ k, p'.gettoni.count k + (rs.map Risposta.chiamata).count k ≤
      p.gettoni.count k + nuove t nuova k)
    (posti : t'.posti = t.posti.set i p') (nascite : t'.nascite = t.nascite)
    (risposte : t'.risposte = t.risposte ++ rs)
    (chiamate : t'.chiamate = t.chiamate + if nuova then 1 else 0) : TabellaSana t' := by
  refine sana.seguito nuova (seguito_set posti rfl found segue) nascite risposte errori
    (fun k => ?_) chiamate
  have moved := gettoni_set found posti risposte k
  have bound := count k
  omega

theorem TabellaSana.rifiuto {codice : Int} (posti : t'.posti = t.posti)
    (nascite : t'.nascite = t.nascite)
    (risposte : t'.risposte = t.risposte ++ [{ chiamata := t.chiamate, esito := .errore codice }])
    (chiamate : t'.chiamate = t.chiamate + 1) : TabellaSana t' := by
  have seguito : Seguito t t' := by
    intro j q isQ
    rw [posti] at isQ
    exact .inr ⟨q, isQ, Segue.refl q⟩
  refine sana.seguito true seguito nascite risposte ?_ (fun k => ?_) chiamate
  · intro r mem
    rw [mem_singleton.mp mem]
    exact ⟨codice, rfl⟩
  · rw [nuove_true, gettoni_count, gettoni_count, posti, risposte, map_append, count_append,
      map_singleton]
    dsimp only
    omega

/-- A connection is given.  It was nobody's, so it was never given before; and it was the
listener's own, because it remembered the slot. -/
theorem TabellaSana.consegna {j : Nat} {asc asc' c c' : Posto} {k : Nat} {nuova : Bool}
    (isAsc : t.posti[i]? = some asc) (isC : t.posti[j]? = some c) (distinct : i ≠ j)
    (listens : asc.stato = .ascolta) (cLive : c.stato ≠ .libera)
    (notHalf : c.stato ≠ .synRicev) (free : c.accettata = false) (remembers : c.ascoltatore = i + 1)
    (sameAsc : asc'.vita = asc.vita) (sameC : c'.vita = { c.vita with accettata := true })
    (gettoniC : c'.gettoni = c.gettoni)
    (count : ∀ h, asc'.gettoni.count h + [k].count h ≤ asc.gettoni.count h + nuove t nuova h)
    (posti : t'.posti = (t.posti.set j c').set i asc') (nascite : t'.nascite = t.nascite)
    (risposte : t'.risposte = t.risposte ++ [{ chiamata := k, esito := .consegnata asc c }])
    (chiamate : t'.chiamate = t.chiamate + if nuova then 1 else 0) : TabellaSana t' := by
  have isStato : c'.stato = c.stato := congrArg Vita.stato sameC
  have taken : c'.accettata = true := congrArg Vita.accettata sameC
  have cSegue : Segue c c' := by
    refine ⟨congrArg Vita.porta sameC, congrArg Vita.ascoltatore sameC, congrArg Vita.nascita sameC,
      congrArg Vita.figlia sameC, ?_, ?_, ?_, ?_⟩
    · exact fun live => isStato ▸ live
    · exact fun isListen => isStato ▸ isListen
    · exact fun isHalf => absurd (isStato ▸ isHalf) notHalf
    · exact fun isFree => nomatch taken.symm.trans isFree
  have seguito : Seguito t t' := by
    intro m q' isQ
    rw [posti] at isQ
    rcases posto_set isQ with ⟨isI, new⟩ | ⟨_, old⟩
    · rw [isI, new]
      exact .inr ⟨asc, isAsc, Segue.vita sameAsc⟩
    rcases posto_set old with ⟨isJ, new⟩ | ⟨_, older⟩
    · rw [isJ, new]
      exact .inr ⟨c, isC, cSegue⟩
    · exact .inr ⟨q', older, Segue.refl q'⟩
  have cMember := mem_of_getElem? isC
  have given : Data t' c.nascita := by
    refine ⟨by rw [nascite]; exact sana.limite c cMember cLive, ?_⟩
    intro q' mem qLive isX
    obtain ⟨m, isQ⟩ := mem_iff_getElem?.mp mem
    obtain ⟨q, wasQ, qSegue⟩ := seguito.posto isQ qLive
    have isM : m = j :=
      sana.unici m j q c wasQ isC (qSegue.viva qLive) cLive (qSegue.nascita.symm.trans isX)
    rw [isM, posti, List.getElem?_set_ne distinct] at isQ
    rcases posto_set isQ with ⟨_, new⟩ | ⟨wrong, _⟩
    · rw [new]
      exact taken
    · exact absurd rfl wrong
  have sani : GettoniSani t' := by
    refine sana.gettoniSani.passo nuova (fun h => ?_) chiamate
    have isAsc' : (t.posti.set j c')[i]? = some asc := by
      rw [List.getElem?_set_ne (fun same => distinct same.symm)]
      exact isAsc
    have fst := count_flatMap_set Posto.gettoni isC c' h
    have snd := count_flatMap_set Posto.gettoni isAsc' asc' h
    have bound := count h
    rw [gettoniC] at fst
    rw [gettoni_count, gettoni_count, posti, risposte, map_append, count_append, map_singleton]
    dsimp only
    omega
  refine ⟨sana.toPostiSani.seguito seguito nascite, ?_, ?_, ?_, sani.una, sani.limite⟩
  · intro r mem x isX
    rw [risposte] at mem
    rcases mem_append.mp mem with old | new
    · exact (sana.date r old x isX).seguito seguito nascite
    · rw [mem_singleton.mp new] at isX
      rw [← Option.some.inj isX]
      exact given
  · rw [risposte, filterMap_append]
    refine nodup_append.mpr ⟨sana.dateUnaVolta, pairwise_singleton _ _, ?_⟩
    intro x old y new same
    rw [same, mem_singleton.mp new] at old
    obtain ⟨r, mem, isX⟩ := mem_filterMap.mp old
    have wasTaken := (sana.date r mem _ isX).2 c cMember cLive rfl
    nomatch wasTaken.symm.trans free
  · intro r mem
    rw [risposte] at mem
    rcases mem_append.mp mem with old | new
    · exact sana.giuste r old
    · rw [mem_singleton.mp new]
      exact sana.sue i j asc c isAsc isC listens cLive free remembers

theorem TabellaSana.cambio (cambio : Cambio t t') : TabellaSana t' := by
  cases cambio with
  | pulizia pulizia => exact sana.pulizia pulizia
  | nasce found free empty nascente => exact sana.nasce found empty nascente rfl rfl rfl rfl
  | @stato i p stato chiusa found live notListens newLive newNotListens half =>
    have segue : Segue p { p with stato := stato, chiusaCliente := chiusa } :=
      ⟨rfl, rfl, rfl, rfl, fun _ => live, fun listens => absurd listens newNotListens,
        fun isHalf => ⟨half isHalf, rfl⟩, id⟩
    exact sana.unPosto false found segue nessunErrore (fun _ => Nat.le_refl _) rfl rfl
      (append_nil _).symm rfl
  | attese p' nuova found same errori count =>
    exact sana.unPosto nuova found (Segue.vita same) errori count rfl rfl rfl rfl
  | rifiuto => exact sana.rifiuto rfl rfl rfl rfl
  | consegna asc' c' k nuova isAsc isC distinct listens cLive _ free remembers sameAsc sameC
      gettoniC notHalf
      count =>
      exact sana.consegna isAsc isC distinct listens cLive notHalf free remembers sameAsc sameC
        gettoniC count rfl rfl rfl rfl

end

end Changes

end ExOs.Net
