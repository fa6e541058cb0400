import ExOs.Net.TcpEventi

/-!
# The window of the other side

`tcp_spingi` compares what is left with `finestra - inviati` before it asks
whether the difference is positive: a window below the bytes in flight makes it
turn round, and all that is left goes out.
-/

namespace ExOs.Net

open ExOs.Library List Mittente

variable (c : Conn)

/-- All the data lie before `snd_una + finestra`. -/
def Entro (segs : List Segmento) : Prop :=
  ∀ s ∈ segs, s.dati ≠ [] → (s.seq - c.sndUna).toNat + s.dati.length ≤ c.finestra.toNat

/-- Bytes are left to send and the window is below the bytes in flight. -/
def Scavalca : Prop :=
  c.spinge = true ∧ c.finFuori = false ∧ c.inviati < c.txLen ∧ c.finestra < c.inviati

instance (c : Conn) : Decidable (Scavalca c) := inferInstanceAs (Decidable (_ ∧ _ ∧ _ ∧ _))

section Call

variable {c : Conn} {segs : List Segmento} {tx : List UInt8} {seq una : UInt32} {da k : Nat}

theorem entro_vuoti (empty : ∀ s ∈ segs, s.dati = []) : Entro c segs :=
  fun s mem ne => absurd (empty s mem) ne

theorem entro_nil : Entro c [] := entro_vuoti (forall_mem_nil _)

theorem entro_attorno {prima dopo : List Segmento} (pre : ∀ s ∈ prima, s.dati = [])
    (after : ∀ s ∈ dopo, s.dati = []) : Entro c (prima ++ segs ++ dopo) ↔ Entro c segs := by
  constructor
  · intro all s mem
    exact all s (mem_append_left _ (mem_append_right _ mem))
  · intro inside s mem ne
    rcases mem_append.mp mem with mem | mem
    · rcases mem_append.mp mem with mem | mem
      · exact absurd (pre s mem) ne
      · exact inside s mem ne
    · exact absurd (after s mem) ne

theorem Pezzi.entro (pezzi : Pezzi tx seq da k segs) (isDa : (seq - una).toNat = da)
    (small : da + k < 2 ^ 32) :
    ∀ s ∈ segs, (s.seq - una).toNat + s.dati.length ≤ da + k := by
  induction pezzi with
  | nil => exact forall_mem_nil _
  | @cons seq da k q s segs pos sSeq _ _ sLength _ ih =>
    intro d mem
    rcases mem_cons.mp mem with isHead | inTail
    · rw [isHead, sSeq]
      omega
    have next : (seq + q - una).toNat = da + q.toNat := by
      have shifted : seq + q - una = (seq - una) + q := by grind
      rw [shifted, UInt32.toNat_add]
      omega
    have le := ih next (by omega) d inTail
    omega

theorem Pezzi.primo (pezzi : Pezzi tx seq da k segs) (pos : 0 < k) :
    ∃ s ∈ segs, s.seq = seq ∧ s.dati ≠ [] := by
  cases pezzi with
  | nil => exact absurd pos (Nat.lt_irrefl 0)
  | @cons _ _ _ q s segs qPositive sSeq _ _ sLength _ =>
    refine ⟨s, mem_cons_self, sSeq, ?_⟩
    intro empty
    rw [empty] at sLength
    exact absurd qPositive (by rw [← sLength]; decide)

theorem Partiti.entro_iff {c' : Conn} (partiti : Partiti c c' segs) (corta : c.tx.length ≤ 4096) :
    Entro c segs ↔ ¬Scavalca c := by
  have le := partiti.entro
  constructor
  · rintro entro ⟨_, _, _, below⟩
    obtain ⟨s, mem, isSeq, ne⟩ := partiti.pezzi.primo partiti.positivi
    have within := entro s mem ne
    rw [isSeq] at within
    have less := UInt32.lt_iff_toNat_lt.mp below
    change c.inviati.toNat + s.dati.length ≤ _ at within
    omega
  · intro scavalca s mem _
    have notBelow : ¬c.finestra < c.inviati := fun below =>
      scavalca ⟨partiti.spinge, partiti.finDentro, partiti.restano, below⟩
    have isOpen := UInt32.le_iff_toNat_le.mp (UInt32.not_lt.mp notBelow)
    have isWindow : (c.finestra - c.inviati).toNat = c.finestra.toNat - c.inviati.toNat :=
      UInt32.toNat_sub_of_le _ _ (UInt32.not_lt.mp notBelow)
    have limited : c.ammessi.toNat ≤ c.finestra.toNat - c.inviati.toNat := by
      rw [Conn.ammessi]
      split
      · rw [isWindow]
      · next less =>
        rw [← isWindow]
        exact UInt32.le_iff_toNat_le.mp (UInt32.not_lt.mp less)
    have within := partiti.pezzi.entro rfl (by omega) s mem
    omega

variable (amb : Ambiente)

theorem spingiFin_vuoto (c : Conn) : ∀ s ∈ (spingiFin amb c).2, s.dati = [] := by
  intro s mem
  rw [mem_singleton.mp mem]
  rfl

variable (ora : UInt32)

variable (corta : c.tx.length ≤ 4096)

include corta

/-- A call keeps within the window exactly when it does not find it below the bytes
in flight. -/
theorem tcpSpingi_entro_iff : Entro c (tcpSpingi amb ora c).2 ↔ ¬Scavalca c := by
  have spinta := tcpSpingi_spinta amb ora corta
  generalize tcpSpingi amb ora c = r at spinta
  cases spinta with
  | ferma ferma =>
    refine ⟨fun _ => ?_, fun _ => entro_nil⟩
    rintro ⟨spinge, finDentro, restano, below⟩
    cases ferma with
    | stato stopped => cases spinge.symm.trans stopped
    | finFuori out => cases finDentro.symm.trans out
    | vuota empty _ => exact absurd restano (UInt32.not_lt.mpr empty)
    | finestra _ closed =>
      rw [closed] at below
      exact UInt32.lt_irrefl _ below
  | fin _ _ empty _ _ =>
    refine ⟨fun _ => ?_, fun _ => entro_vuoti (spingiFin_vuoto amb c)⟩
    rintro ⟨_, _, restano, _⟩
    exact absurd restano (UInt32.not_lt.mpr empty)
  | dati partiti _ => exact partiti.entro_iff corta
  | @datiFin c' segs partiti _ _ =>
    have split := @entro_attorno c segs [] _ (forall_mem_nil _) (spingiFin_vuoto amb c')
    exact split.trans (partiti.entro_iff corta)

/-- Only what the call has sent and the timer change. -/
theorem tcpSpingi_mittente :
    ∃ nxt fuori rto ms n, (tcpSpingi amb ora c).1.mittente = { c.mittente with
      sndNxt := nxt, finFuori := fuori, rtoScade := rto, rtoMs := ms, tentativi := n } := by
  have clock : ∀ k : Conn, ∃ rto ms n, (orologio ora k).mittente =
      { k.mittente with rtoScade := rto, rtoMs := ms, tentativi := n } := by
    intro k
    rw [orologio]
    split <;> exact ⟨_, _, _, rfl⟩
  have spinta := tcpSpingi_spinta amb ora corta
  generalize tcpSpingi amb ora c = r at spinta
  cases spinta with
  | ferma _ => exact ⟨_, _, _, _, _, rfl⟩
  | fin _ _ _ _ _ =>
    obtain ⟨rto, ms, n, same⟩ := clock (spingiFin amb c).1
    exact ⟨_, _, rto, ms, n, same⟩
  | @dati c' segs partiti _ =>
    obtain ⟨rto, ms, n, same⟩ := clock c'
    rw [partiti.isMittente] at same
    exact ⟨_, _, rto, ms, n, same⟩
  | @datiFin c' segs partiti _ _ =>
    obtain ⟨rto, ms, n, same⟩ := clock (spingiFin amb c').1
    have isFin : (spingiFin amb c').1.mittente =
        { c'.mittente with sndNxt := c'.finSeq + 1, finFuori := true } := rfl
    rw [isFin, partiti.isMittente] at same
    exact ⟨_, _, rto, ms, n, same⟩

theorem tcpSpingi_fermi :
    (tcpSpingi amb ora c).1.sndUna = c.sndUna ∧ (tcpSpingi amb ora c).1.finestra = c.finestra ∧
      (tcpSpingi amb ora c).1.tx = c.tx ∧ (tcpSpingi amb ora c).1.stato = c.stato := by
  obtain ⟨_, _, _, _, _, same⟩ := tcpSpingi_mittente amb ora corta
  exact ⟨congrArg sndUna same, congrArg finestra same,
    congrArg tx same, congrArg stato same⟩

end Call

/-! ## Steps -/

/-- No call of the event finds the window below the bytes in flight. -/
def NonScavalca (e : EventoTcp) : Prop := ∀ p, chiamata c e = some p → ¬Scavalca p

section Steps

variable {c : Conn}

theorem entro_congr {c' : Conn} (sameUna : c'.sndUna = c.sndUna)
    (sameWindow : c'.finestra = c.finestra)
    {segs : List Segmento} : Entro c' segs ↔ Entro c segs := by
  rw [Entro, Entro, sameUna, sameWindow]

variable (amb : Ambiente)

variable (ore : Ore)

theorem trattaAperta_vuoti (c : Conn) (a : Arrivo) :
    ∀ s ∈ (trattaAperta amb ore c a).2, s.dati = [] := by
  intro s mem
  rcases mem_append.mp mem with data | fin
  · exact (trattaDati_ack _ _ _ s data).noDati
  · exact (trattaFin_ack _ _ _ s fin).noDati

/-! ### The queue stays short -/

theorem trattaDati_tx {a : Arrivo} : (trattaDati amb c a).1.tx = c.tx :=
  congrArg tx (trattaDati_mittente amb c a)

theorem tcpConsegna_tx : (tcpConsegna amb c).1.tx = c.tx :=
  congrArg tx (tcpConsegna_mittente amb c)

theorem trattaFin_tx {a : Arrivo} : (trattaFin amb c a).1.tx = c.tx := by
  rcases trattaFin_mittente with same | ⟨_, same⟩ | ⟨_, _, same⟩ | ⟨_, _, same⟩ <;>
    exact congrArg tx same

variable (ora : UInt32) {e : EventoTcp}

theorem trattaFinVisto_tx : (trattaFinVisto ora c).tx = c.tx := by
  refine (congrArg tx (trattaFinVisto_mittente ora c)).trans ?_
  split <;> rfl

theorem tcpConferma_tx {ack : UInt32} : (tcpConferma ora c ack).tx.length ≤ c.tx.length := by
  by_cases new : seqPrima c.sndUna ack = true
  · have isTx : (tcpConferma ora c ack).tx = c.tx.drop (c.confermati ack).toNat :=
      congrArg tx (tcpConferma_mittente ora new)
    rw [isTx, length_drop]
    exact Nat.sub_le _ _
  · rw [tcpConferma_old ora (Bool.eq_false_iff.mpr new)]

theorem trattaAperta_tx (c : Conn) (a : Arrivo) :
    (trattaAperta amb ore c a).1.tx.length ≤ c.tx.length := by
  rw [trattaAperta]
  rw [trattaFinVisto_tx, trattaFin_tx, trattaDati_tx]
  split
  · exact tcpConferma_tx ore.conferma
  · exact Nat.le_refl _

variable (corta : c.tx.length ≤ 4096)

include corta

theorem tcpMandaFin_corta : (tcpMandaFin amb ore c).1.tx.length ≤ 4096 := by
  rw [tcpMandaFin]
  rw [(tcpSpingi_fermi (c := finDeciso c) amb ore.spingi corta).2.2.1]
  exact corta

theorem passoTcp_corta (e : EventoTcp) : (passoTcp c e).1.tx.length ≤ 4096 := by
  have effetto := passoTcp_effetto c e
  generalize passoTcp c e = r at effetto ⊢
  have kept : ∀ {k : Conn}, k.tx = c.tx → k.tx.length ≤ 4096 := fun same => same ▸ corta
  have pushed : ∀ {amb : Ambiente} {ora : UInt32} {k : Conn}, k.tx.length ≤ 4096 →
      (tcpSpingi amb ora k).1.tx.length ≤ 4096 := by
    intro amb ora k short
    rw [(tcpSpingi_fermi amb ora short).2.2.1]
    exact short
  cases effetto with
  | fermo | chiuso | ripete => exact corta
  | muore _ _ dead => exact kept (congrArg tx dead)
  | nasce nascita _ =>
    rcases nascita.mittente with same | ⟨_, same⟩ <;> exact kept (congrArg tx same)
  | aperta _ _ _ =>
    rw [tcpConsegna_tx]
    exact pushed (Nat.le_trans (trattaAperta_tx _ _ _ _) corta)
  | ritrasmette _ _ => exact pushed corta
  | invia _ _ _ => exact pushed (tcpAccettati_corta corta)
  | addio _ _ _ => exact tcpMandaFin_corta _ _ corta
  | riceve _ =>
    rw [tcpRicevi, tcpConsegna_tx]
    exact corta
  | azzera => exact Nat.zero_le _

omit corta

/-! ### Each event -/

theorem nonScavalca_none (isNone : chiamata c e = none) : NonScavalca c e := by
  intro p isSome
  rw [isNone] at isSome
  cases isSome

theorem nonScavalca_some {p : Conn} (isSome : chiamata c e = some p) :
    NonScavalca c e ↔ ¬Scavalca p := by
  constructor
  · exact fun all => all p isSome
  · intro good q isSome'
    rw [isSome] at isSome'
    cases isSome'
    exact good

include corta

theorem tcpSpingi_dopo : Entro (tcpSpingi amb ora c).1 (tcpSpingi amb ora c).2 ↔ ¬Scavalca c := by
  have same := tcpSpingi_fermi amb ora corta
  rw [entro_congr same.1 same.2.1]
  exact tcpSpingi_entro_iff amb ora corta

theorem tcpMandaFin_dopo :
    Entro (tcpMandaFin amb ore c).1 (tcpMandaFin amb ore c).2 ↔ ¬Scavalca (finDeciso c) := by
  have short : (finDeciso c).tx.length ≤ 4096 := corta
  have sameSegs : (tcpMandaFin amb ore c).2 = (tcpSpingi amb ore.spingi (finDeciso c)).2 := by
    rw [tcpMandaFin]
  rw [sameSegs, entro_congr (c := (tcpSpingi amb ore.spingi (finDeciso c)).1) (by rw [tcpMandaFin])
    (by rw [tcpMandaFin])]
  exact tcpSpingi_dopo amb ore.spingi short

omit corta

theorem non_scavalca_riavvolta (same : c.sndNxt = c.sndUna) : ¬Scavalca c := by
  rintro ⟨_, _, _, below⟩
  have zero : c.inviati = 0 := by
    rw [Conn.inviati, same]
    exact UInt32.sub_self _
  rw [zero] at below
  exact absurd below (UInt32.not_lt.mpr (UInt32.zero_le))

/-- A step keeps within the window exactly when no call of it finds the window below
the bytes in flight. -/
theorem passoTcp_entro_iff (corta : c.tx.length ≤ 4096) (e : EventoTcp) :
    Entro (passoTcp c e).1 (passoTcp c e).2 ↔ NonScavalca c e := by
  have effetto := passoTcp_effetto c e
  generalize passoTcp c e = r at effetto ⊢
  have quiet : ∀ {k : Conn} {segs : List Segmento}, chiamata c e = none →
    (∀ s ∈ segs, s.dati = []) →
      (Entro k segs ↔ NonScavalca c e) :=
    fun isNone empty => ⟨fun _ => nonScavalca_none isNone, fun _ => entro_vuoti empty⟩
  cases effetto with
  | fermo _ isNone | chiuso _ isNone | muore _ isNone => exact quiet isNone (forall_mem_nil _)
  | nasce nascita isNone => exact quiet isNone nascita.vuoti
  | @aperta amb ore a _ _ isSome =>
    rw [nonScavalca_some isSome]
    have short := Nat.le_trans (trattaAperta_tx amb ore (c.vede a) a) corta
    have pre := trattaAperta_vuoti amb ore (c.vede a) a
    generalize trattaAperta amb ore (c.vede a) a = p at short pre ⊢
    have after := tcpConsegna_mittente amb (tcpSpingi amb ore.spingi p.1).1
    rw [entro_attorno pre tcpConsegna_vuoti,
      entro_congr (congrArg sndUna after) (congrArg finestra after)]
    exact tcpSpingi_dopo amb ore.spingi short
  | ripete _ => exact quiet rfl fun s mem => mem_singleton.mp mem ▸ rfl
  | ritrasmette _ _ =>
    exact ⟨fun _ => nonScavalca_none rfl,
      fun _ => (tcpSpingi_dopo _ _ (by exact corta)).mpr (non_scavalca_riavvolta rfl)⟩
  | invia _ _ isSome =>
    rw [nonScavalca_some isSome]
    exact tcpSpingi_dopo _ _ (tcpAccettati_corta corta)
  | addio _ isSome _ =>
    rw [nonScavalca_some isSome]
    exact tcpMandaFin_dopo _ _ corta
  | riceve _ => exact quiet rfl tcpConsegna_vuoti
  | azzera => exact quiet rfl (forall_mem_nil _)

end Steps

/-! ## Runs -/

/-- A connection as it is born: by a call of a program, or by a SYN to a listener. -/
def Nata : Prop :=
  (∃ amb ore isn cliente scade, c = (tcpApri amb ore isn cliente scade).1) ∨
    ∃ amb isn a, c = (tcpNasce amb isn a).1

def Passo (e : EventoTcp) (c' : Conn) : Prop := c' = (passoTcp c e).1

theorem Nata.corta {c : Conn} (nata : Nata c) : c.tx.length ≤ 4096 := by
  rcases nata with ⟨amb, ore, isn, cliente, scade, isC⟩ | ⟨amb, isn, a, isC⟩
  · rw [isC]
    exact Nat.zero_le _
  · rw [isC]
    exact Nat.zero_le _

theorem reached_corta {c : Conn} (reached : Reached Nata Passo c) : c.tx.length ≤ 4096 := by
  apply reached.invariant fun c => c.tx.length ≤ 4096
  · exact fun fst nata => nata.corta
  · intro pre e after corta isAfter
    rw [isAfter]
    exact passoTcp_corta corta e

/-- In every state of every run, what an event sends stays before `snd_una + finestra`
exactly when `tcp_spingi` does not find the window below the bytes in flight. -/
theorem finestra_rispettata_iff {c : Conn} (reached : Reached Nata Passo c) (e : EventoTcp) :
    Entro (passoTcp c e).1 (passoTcp c e).2 ↔ NonScavalca c e :=
  passoTcp_entro_iff (reached_corta reached) e

/-- A connection to a listener, its SYN confirmed, with a window of 100 bytes. -/
def connCento : Conn :=
  let nata := (tcpNasce ambRiserva 0
    { seq := 0, ack := 0, flag := { syn := true }, finestra := 100, dati := [] }).1
  (passoTcp nata (.segmento ambRiserva oreZero
    { seq := 1, ack := 1, flag := { ack := true }, finestra := 100, dati := [] })).1

theorem connCento_reached : Reached Nata Passo connCento :=
  Reached.next (Reached.start (Or.inr ⟨_, _, _, rfl⟩)) rfl

/-- A hundred bytes fill the window; the other side then halves it. -/
def eventiStretti : List EventoTcp :=
  [.invia ambRiserva 1 (List.replicate 100 65), .segmento ambRiserva oreZero
      { seq := 1, ack := 1, flag := { ack := true }, finestra := 50, dati := [] }]

def inviaUno : EventoTcp := .invia ambRiserva 2 [66]

theorem finestra_rispettata_prima :
    Entro (passoTcp connCento inviaUno).1 (passoTcp connCento inviaUno).2 :=
  (finestra_rispettata_iff connCento_reached inviaUno).mpr
    ((nonScavalca_some rfl).mpr (by decide +kernel))

/-- With 100 bytes in flight and a window of 50, one more byte goes out at 100. -/
theorem finestra_scavalcata :
    Reached Nata Passo (eventiStretti.foldl (fun c e => (passoTcp c e).1) connCento) ∧
      ∃ s ∈ (passoTcp (eventiStretti.foldl (fun c e => (passoTcp c e).1) connCento) inviaUno).2,
        s.seq = 101 ∧ s.dati = [66] ∧
          (passoTcp (eventiStretti.foldl (fun c e => (passoTcp c e).1) connCento)
            inviaUno).1.sndUna +
            (passoTcp (eventiStretti.foldl (fun c e => (passoTcp c e).1) connCento)
              inviaUno).1.finestra
              = 51 :=
  ⟨Reached.foldlAll connCento_reached eventiStretti, by decide +kernel⟩

end ExOs.Net
