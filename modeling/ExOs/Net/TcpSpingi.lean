import ExOs.Net.Tcp

/-!
# What a connection sends

The sending side of a connection, which receiving leaves alone, and all that a
call of `tcp_spingi` can do to it.
-/

namespace ExOs.Net

open ExOs.Library List

/-! ## The sending side -/

/-- The fields of a connection that decide what it sends. -/
structure Mittente where
  stato : StatoTcp
  sndUna : UInt32
  sndNxt : UInt32
  finSeq : UInt32
  finFuori : Bool
  finestra : UInt32
  tx : List UInt8
  rtoScade : UInt32
  rtoMs : UInt32
  tentativi : UInt32

def Conn.mittente (c : Conn) : Mittente :=
  { stato := c.stato, sndUna := c.sndUna, sndNxt := c.sndNxt, finSeq := c.finSeq,
    finFuori := c.finFuori, finestra := c.finestra, tx := c.tx, rtoScade := c.rtoScade,
    rtoMs := c.rtoMs, tentativi := c.tentativi }

/-- A segment that only confirms. -/
structure SoloAck (seq : UInt32) (s : Segmento) : Prop where
  isSeq : s.seq = seq
  isFlag : s.flag = { ack := true }
  noDati : s.dati = []

section Frame

variable {amb : Ambiente} {c : Conn} {a : Arrivo}

theorem tcpConsegna_mittente (amb : Ambiente) (c : Conn) :
    (tcpConsegna amb c).1.mittente = c.mittente := by
  rw [tcpConsegna]
  split
  · rfl
  split
  · rfl
  dsimp only
  split
  · split <;> rfl
  · rfl

theorem tcpConsegna_ack (amb : Ambiente) (c : Conn) :
    ∀ s ∈ (tcpConsegna amb c).2, SoloAck c.sndNxt s := by
  have empty : ∀ s ∈ ([] : List Segmento), SoloAck c.sndNxt s := fun s mem => absurd mem not_mem_nil
  rw [tcpConsegna]
  split
  · exact empty
  split
  · exact empty
  dsimp only
  split
  · split
    · intro s mem
      rw [mem_singleton.mp mem]
      exact ⟨rfl, rfl, rfl⟩
    · exact empty
  · exact empty

theorem trattaDati_mittente (amb : Ambiente) (c : Conn) (a : Arrivo) :
    (trattaDati amb c a).1.mittente = c.mittente := by
  rw [trattaDati]
  split
  · rfl
  · dsimp only
    split <;> rfl

theorem trattaDati_ack (amb : Ambiente) (c : Conn) (a : Arrivo) :
    ∀ s ∈ (trattaDati amb c a).2, SoloAck c.sndNxt s := by
  rw [trattaDati]
  split
  · exact fun s mem => absurd mem not_mem_nil
  · intro s mem
    rw [mem_singleton.mp mem]
    split <;> exact ⟨rfl, rfl, rfl⟩

theorem trattaFin_ack (amb : Ambiente) (c : Conn) (a : Arrivo) :
    ∀ s ∈ (trattaFin amb c a).2, SoloAck c.sndNxt s := by
  rw [trattaFin]
  split
  · intro s mem
    rw [mem_singleton.mp mem]
    exact ⟨rfl, rfl, rfl⟩
  · exact fun s mem => absurd mem not_mem_nil

theorem trattaFin_mittente : (trattaFin amb c a).1.mittente = c.mittente ∨
      (c.stato = .aperta ∧ (trattaFin amb c a).1.mittente = { c.mittente with stato := .finSuo }) ∨
      (c.stato = .finMio ∧ c.finVisto = true ∧
        (trattaFin amb c a).1.mittente = { c.mittente with stato := .morta, rtoScade := 0 }) ∨
      (c.stato = .finMio ∧ c.finVisto = false ∧
        (trattaFin amb c a).1.mittente = { c.mittente with stato := .ultimoAck }) := by
  rw [trattaFin]
  split
  · dsimp only
    split
    case h_1 isAperta => exact .inr (.inl ⟨isAperta, rfl⟩)
    case h_2 isFinMio =>
      split
      case isTrue seen => exact .inr (.inr (.inl ⟨isFinMio, seen, rfl⟩))
      case isFalse unseen =>
        exact .inr (.inr (.inr ⟨isFinMio, Bool.eq_false_iff.mpr unseen, rfl⟩))
    case h_3 => exact .inl rfl
  · exact .inl rfl

/-- How many bytes of the queue a new confirmation takes away. -/
def Conn.confermati (c : Conn) (ack : UInt32) : UInt32 :=
  if c.txLen < ack - c.sndUna then c.txLen else ack - c.sndUna

variable (ora : UInt32) {ack : UInt32}

theorem tcpConferma_mittente (new : seqPrima c.sndUna ack = true) :
    (tcpConferma ora c ack).mittente = { c.mittente with
        tx := c.tx.drop (c.confermati ack).toNat
        sndUna := ack
        rtoScade := if ack = c.sndNxt then 0 else ora + tcpRtoMs
        rtoMs := if ack = c.sndNxt then c.rtoMs else tcpRtoMs
        tentativi := 0 } := by
  rw [tcpConferma, if_neg (by rw [new]; decide)]
  by_cases all : ack = c.sndNxt
  · rw [if_pos all, if_pos all, if_pos all]
    rfl
  · rw [if_neg all, if_neg all, if_neg all]
    rfl

theorem tcpConferma_old (old : seqPrima c.sndUna ack = false) : tcpConferma ora c ack = c := by
  rw [tcpConferma, if_pos (by rw [old]; rfl)]

theorem trattaFinVisto_mittente (c : Conn) : (trattaFinVisto ora c).mittente =
      if c.chiude = true ∧ c.finVisto = true then
        { c.mittente with stato := if c.stato = .ultimoAck then .morta else c.stato, rtoScade := 0 }
      else c.mittente := by
  have fin2 : ∀ (k : Conn) (scade : UInt32), (if k.stato = .finMio ∧ k.fin2Scade = 0 then
      { k with fin2Scade := scade } else k).mittente = k.mittente := by
    intro k scade
    split <;> rfl
  rw [trattaFinVisto]
  by_cases seen : c.chiude = true ∧ c.finVisto = true
  · rw [if_pos seen, if_pos seen]
    exact fin2 _ _
  · rw [if_neg seen, if_neg seen]

/-- The window of a segment is believed. -/
abbrev Conn.vede (c : Conn) (a : Arrivo) : Conn := { c with finestra := a.finestra.toUInt32 }

/-- The window and the confirmation of a segment are taken. -/
def dopoConferma (ore : Ore) (c : Conn) (a : Arrivo) : Conn :=
  if a.flag.ack then tcpConferma ore.conferma { c with finestra := a.finestra.toUInt32 } a.ack
  else { c with finestra := a.finestra.toUInt32 }

/-- What a segment does to an open connection before the FIN is looked at. -/
def presa (amb : Ambiente) (ore : Ore) (c : Conn) (a : Arrivo) : Conn :=
  (trattaDati amb (dopoConferma ore c a) a).1

theorem trattaTcp_aperta {ore : Ore} (noReset : ¬a.flag.rst = true) (notRicev : c.stato ≠ .synRicev)
    (notInvia : c.stato ≠ .synInvia) :
    trattaTcp amb ore c a = let p := trattaAperta amb ore (c.vede a) a
      let s := tcpSpingi amb ore.spingi p.1
      let k := tcpConsegna amb s.1
      (k.1, p.2 ++ s.2 ++ k.2) := by
  rw [trattaTcp, if_neg noReset]
  dsimp only
  split
  · exact absurd (by assumption) notRicev
  · exact absurd (by assumption) notInvia
  · rfl

end Frame

/-- Segments one after the other, from the byte `da` of the queue on: `k` bytes in
all. -/
inductive Pezzi (tx : List UInt8) : UInt32 → Nat → Nat → List Segmento → Prop
  | nil {seq : UInt32} {da : Nat} : Pezzi tx seq da 0 []
  | cons {seq : UInt32} {da k : Nat} {q : UInt32} {s : Segmento} {segs : List Segmento} :
      0 < q.toNat → s.seq = seq → s.flag = { ack := true, psh := true } →
      s.dati = (tx.drop da).take q.toNat → s.dati.length = q.toNat →
      Pezzi tx (seq + q) (da + q.toNat) k segs → Pezzi tx seq da (q.toNat + k) (s :: segs)

theorem toNat_tcpMss : tcpMss.toNat = 1400 := rfl

theorem spingiGiri_nessuno {c : Conn} {inviati restanti : UInt32} (zero : restanti = 0) :
    c.mittente = { c.mittente with sndNxt := c.sndNxt + restanti } ∧
      Pezzi c.tx c.sndNxt inviati.toNat restanti.toNat [] := by
  have same : c.sndNxt + restanti = c.sndNxt := by
    grind
  rw [same, zero]
  exact ⟨rfl, Pezzi.nil⟩

theorem spingiGiri_spec {amb : Ambiente} {giri : Nat} :
    ∀ (c : Conn) (inviati restanti : UInt32), c.tx.length ≤ 4096 →
      inviati.toNat + restanti.toNat ≤ c.tx.length → restanti.toNat ≤ giri →
      (spingiGiri amb giri c inviati restanti).1.mittente =
          { c.mittente with sndNxt := c.sndNxt + restanti } ∧
        Pezzi c.tx c.sndNxt inviati.toNat restanti.toNat
          (spingiGiri amb giri c inviati restanti).2 := by
  induction giri with
  | zero =>
    intro c inviati restanti _ _ enough
    exact spingiGiri_nessuno (UInt32.toNat_inj.mp (Nat.le_zero.mp enough))
  | succ giri ih =>
    intro c inviati restanti corta le enough
    rw [spingiGiri]
    split
    · next isZero =>
      exact spingiGiri_nessuno isZero
    rename_i isZero
    have nonzero : restanti.toNat ≠ 0 := fun wrong => isZero (UInt32.toNat_inj.mp wrong)
    obtain ⟨q, isQ⟩ : ∃ q, q = if tcpMss < restanti then tcpMss else restanti := ⟨_, rfl⟩
    have bounds : 0 < q.toNat ∧ q.toNat ≤ restanti.toNat ∧ q.toNat ≤ 1400 := by
      split at isQ
      · next more =>
        have less := UInt32.lt_iff_toNat_lt.mp more
        rw [isQ]
        rw [toNat_tcpMss] at less ⊢
        omega
      · next more =>
        have less := UInt32.le_iff_toNat_le.mp (UInt32.not_lt.mp more)
        rw [toNat_tcpMss] at less
        rw [isQ]
        omega
    rw [← isQ]
    have isInviati : (inviati + q).toNat = inviati.toNat + q.toNat := by
      rw [UInt32.toNat_add]
      omega
    have isRestanti : (restanti - q).toNat = restanti.toNat - q.toNat :=
      UInt32.toNat_sub_of_le restanti q (UInt32.le_iff_toNat_le.mpr bounds.2.1)
    have total : q.toNat + (restanti - q).toNat = restanti.toNat := by omega
    obtain ⟨isMittente, pezzi⟩ := ih { (tcpManda amb c { ack := true, psh := true }
        ((c.tx.drop inviati.toNat).take q.toNat)).1 with sndNxt := c.sndNxt + q }
      (inviati + q) (restanti - q) corta (by
        show _ ≤ c.tx.length
        omega) (by omega)
    constructor
    · refine isMittente.trans ?_
      have sum : c.sndNxt + q + (restanti - q) = c.sndNxt + restanti := by grind
      show { c.mittente with sndNxt := c.sndNxt + q + (restanti - q) } = _
      rw [sum]
    · rw [← total]
      refine Pezzi.cons bounds.1 rfl rfl ?_ ?_ (isInviati ▸ pezzi)
      · show List.take tcpMss.toNat ((c.tx.drop inviati.toNat).take q.toNat) = _
        rw [take_take, toNat_tcpMss, Nat.min_eq_right bounds.2.2]
      · show (List.take tcpMss.toNat ((c.tx.drop inviati.toNat).take q.toNat)).length = _
        rw [length_take, length_take, length_drop, toNat_tcpMss]
        omega

def Conn.inviati (c : Conn) : UInt32 := c.sndNxt - c.sndUna

/-- How many bytes the window lets go, as the code compares them. -/
def Conn.ammessi (c : Conn) : UInt32 :=
  if c.finestra - c.inviati < c.txLen - c.inviati then c.finestra - c.inviati
  else c.txLen - c.inviati

/-- Why a call may do nothing. -/
inductive Ferma (c : Conn) : Prop
  | stato : c.spinge = false → Ferma c
  | finFuori : c.finFuori = true → Ferma c
  | vuota : c.txLen ≤ c.inviati → ¬(c.chiude = true ∧ c.sndNxt = c.finSeq) → Ferma c
  | finestra : c.inviati < c.txLen → c.finestra = c.inviati → Ferma c

/-- Bytes of the queue leave: `c'` is the connection after them. -/
structure Partiti (c c' : Conn) (segs : List Segmento) : Prop where
  spinge : c.spinge = true
  finDentro : c.finFuori = false
  restano : c.inviati < c.txLen
  positivi : 0 < c.ammessi.toNat
  entro : c.inviati.toNat + c.ammessi.toNat ≤ c.tx.length
  isMittente : c'.mittente = { c.mittente with sndNxt := c.sndNxt + c.ammessi }
  pezzi : Pezzi c.tx c.sndNxt c.inviati.toNat c.ammessi.toNat segs

/-- All that a call of `tcp_spingi` can do. -/
inductive Spinta (amb : Ambiente) (ora : UInt32) (c : Conn) : Conn × List Segmento → Prop
  | ferma : Ferma c → Spinta amb ora c (c, [])
  | fin : c.spinge = true → c.finFuori = false → c.txLen ≤ c.inviati → c.chiude = true →
      c.sndNxt = c.finSeq →
      Spinta amb ora c (orologio ora (spingiFin amb c).1, (spingiFin amb c).2)
  | dati {c' : Conn} {segs : List Segmento} : Partiti c c' segs →
      ¬(c.chiude = true ∧ c'.sndNxt = c.finSeq) → Spinta amb ora c (orologio ora c', segs)
  | datiFin {c' : Conn} {segs : List Segmento} : Partiti c c' segs → c.chiude = true →
      c'.sndNxt = c.finSeq →
      Spinta amb ora c (orologio ora (spingiFin amb c').1, segs ++ (spingiFin amb c').2)

theorem Conn.toNat_txLen {c : Conn} (corta : c.tx.length ≤ 4096) : c.txLen.toNat = c.tx.length := by
  rw [Conn.txLen, UInt32.toNat_ofNat']
  omega

theorem tcpSpingi_spinta (amb : Ambiente) (ora : UInt32) {c : Conn} (corta : c.tx.length ≤ 4096) :
    Spinta amb ora c (tcpSpingi amb ora c) := by
  have isLen := Conn.toNat_txLen corta
  rw [tcpSpingi]
  by_cases stopped : c.spinge = false
  · rw [if_pos (by rw [stopped]; rfl)]
    exact Spinta.ferma (Ferma.stato stopped)
  have spinge : c.spinge = true := Bool.not_eq_false _ ▸ stopped
  rw [if_neg (by rw [spinge]; decide)]
  by_cases out : c.finFuori = true
  · rw [if_pos out]
    exact Spinta.ferma (Ferma.finFuori out)
  have finDentro : c.finFuori = false := Bool.eq_false_iff.mpr out
  rw [if_neg out]
  change Spinta amb ora c (if c.txLen ≤ c.inviati then _ else _)
  by_cases empty : c.txLen ≤ c.inviati
  · rw [if_pos empty]
    split
    · next fin =>
      exact Spinta.fin spinge finDentro empty fin.1 fin.2
    · next fin =>
      exact Spinta.ferma (Ferma.vuota empty fin)
  rw [if_neg empty]
  have restano : c.inviati < c.txLen := UInt32.not_le.mp empty
  have less := UInt32.lt_iff_toNat_lt.mp restano
  have isRestanti : (c.txLen - c.inviati).toNat = c.txLen.toNat - c.inviati.toNat :=
    UInt32.toNat_sub_of_le _ _ (UInt32.le_of_lt restano)
  have window : (c.finestra - c.inviati).toNat =
      (2 ^ 32 - c.inviati.toNat + c.finestra.toNat) % 2 ^ 32 := UInt32.toNat_sub _ _
  have finestraSmall := UInt32.toNat_lt c.finestra
  change Spinta amb ora c
    (if c.finestra - c.inviati < c.txLen - c.inviati ∧ c.finestra ≤ c.inviati then _ else _)
  by_cases closed : c.finestra - c.inviati < c.txLen - c.inviati ∧ c.finestra ≤ c.inviati
  · rw [if_pos closed]
    refine Spinta.ferma (Ferma.finestra restano ?_)
    have fst := UInt32.lt_iff_toNat_lt.mp closed.1
    have snd := UInt32.le_iff_toNat_le.mp closed.2
    apply UInt32.toNat_inj.mp
    omega
  rw [if_neg closed]
  -- The window is open, or it is below the bytes in flight and the difference is huge.
  have bounds : 0 < c.ammessi.toNat ∧ c.ammessi.toNat ≤ c.txLen.toNat - c.inviati.toNat := by
    rw [Conn.ammessi]
    split
    · next limited =>
      have fst := UInt32.lt_iff_toNat_lt.mp limited
      have isOpen : ¬c.finestra ≤ c.inviati := fun small => closed ⟨limited, small⟩
      have snd := UInt32.lt_iff_toNat_lt.mp (UInt32.not_le.mp isOpen)
      omega
    · omega
  change Spinta amb ora c
    (if c.chiude = true ∧ (spingiGiri amb c.ammessi.toNat c c.inviati c.ammessi).1.sndNxt =
      (spingiGiri amb c.ammessi.toNat c c.inviati c.ammessi).1.finSeq then _ else _)
  obtain ⟨isMittente, pezzi⟩ :=
    spingiGiri_spec c c.inviati c.ammessi corta (by omega) (Nat.le_refl _)
  have partiti : Partiti c (spingiGiri amb c.ammessi.toNat c c.inviati c.ammessi).1
      (spingiGiri amb c.ammessi.toNat c c.inviati c.ammessi).2 :=
    ⟨spinge, finDentro, restano, bounds.1, by omega, isMittente, pezzi⟩
  have sameFin : (spingiGiri amb c.ammessi.toNat c c.inviati c.ammessi).1.finSeq = c.finSeq :=
    congrArg Mittente.finSeq isMittente
  rw [sameFin]
  split
  · next fin =>
    exact Spinta.datiFin partiti fin.1 fin.2
  · next fin =>
    exact Spinta.dati partiti fin

end ExOs.Net
