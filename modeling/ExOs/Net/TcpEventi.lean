import ExOs.Net.TcpSpingi

/-!
# What an event does

All that an event can do to a connection, one case for each way: what holds along
the runs is proved by these cases.
-/

namespace ExOs.Net

open List

theorem chiude_iff {c : Conn} : c.chiude = true ↔ c.stato = .finMio ∨ c.stato = .ultimoAck := by
  rw [Conn.chiude, Bool.or_eq_true, decide_eq_true_iff, decide_eq_true_iff]

theorem spinge_iff {c : Conn} :
    c.spinge = true ↔ (c.stato = .aperta ∨ c.stato = .finSuo) ∨ c.chiude = true := by
  rw [Conn.spinge, Bool.or_eq_true, Bool.or_eq_true, decide_eq_true_iff, decide_eq_true_iff]

/-- The connection as `tcp_spingi` finds it during an event.  A time-out is not
among them: it goes back to `snd_una` first, and leaves nothing in flight. -/
def chiamata (c : Conn) : EventoTcp → Option Conn
  | .segmento amb ore a =>
    if c.inTabella ∧ ¬a.flag.rst ∧ c.stato ≠ .synRicev ∧ c.stato ≠ .synInvia then
      some (trattaAperta amb ore { c with finestra := a.finestra.toUInt32 } a).1
    else none
  | .invia _ _ dati =>
    if (c.stato = .aperta ∨ c.stato = .finSuo) ∧ tcpAccettati c dati ≠ [] then
      some { c with tx := c.tx ++ tcpAccettati c dati }
    else none
  | .mezza _ _ => if c.stato = .aperta ∨ c.stato = .finSuo then some (finDeciso c) else none
  | .chiudi _ _ =>
    if ¬c.chiusaCliente ∧ (c.stato = .aperta ∨ c.stato = .finSuo) then some (finDeciso c) else none
  | .finOrfana _ _ =>
    if (c.stato = .aperta ∨ c.stato = .finSuo) ∧ ¬c.chiusaCliente then some (finDeciso c) else none
  | _ => none

/-- The connection as a time-out leaves it before the queue is pushed again. -/
def riavvolta (ora : UInt32) (c : Conn) : Conn :=
  { c with
    tentativi := c.tentativi + 1
    rtoMs := c.rtoMs * 2
    rtoScade := ora + c.rtoMs * 2
    sndNxt := c.sndUna
    finFuori := false }

/-- What a segment does to a connection that is being born. -/
def Nascita (amb : Ambiente) (c : Conn) (a : Arrivo) (r : Conn × List Segmento) : Prop :=
  (c.stato = .synInvia ∧ r = trattaSynInvia amb c a) ∨
    (c.stato = .synRicev ∧ r = trattaSynRicev amb c a)

inductive Effetto (c : Conn) : EventoTcp → Conn × List Segmento → Prop
  | fermo {e : EventoTcp} (pid : UInt32) : chiamata c e = none → pid = c.attesaPid ∨ pid = 0 →
      Effetto c e ({ c with attesaPid := pid }, [])
  -- The program closes what is closing already.
  | chiuso {e : EventoTcp} {r : Ricezione} {pid : UInt32} {fin chiusa : Bool} : c.chiude = true →
      chiamata c e = none →
      Effetto c e ({ c with
        toRicezione := r, attesaPid := pid, finC := fin, chiusaCliente := chiusa }, [])
  | muore {e : EventoTcp} {c' : Conn} {scade n : UInt32} : c.stato ≠ .libera →
      chiamata c e = none →
      c'.mittente = { c.mittente with stato := .morta, rtoScade := scade, tentativi := n } →
      Effetto c e (c', [])
  | nasce {amb : Ambiente} {ore : Ore} {a : Arrivo} {r : Conn × List Segmento} :
      Nascita amb { c with finestra := a.finestra.toUInt32 } a r →
      chiamata c (.segmento amb ore a) = none → Effetto c (.segmento amb ore a) r
  | aperta {amb : Ambiente} {ore : Ore} {a : Arrivo} : c.spinge = true → a.flag.rst = false →
      chiamata c (.segmento amb ore a) =
        some (trattaAperta amb ore { c with finestra := a.finestra.toUInt32 } a).1 →
      Effetto c (.segmento amb ore a)
        (let p := trattaAperta amb ore { c with finestra := a.finestra.toUInt32 } a
         let s := tcpSpingi amb ore.spingi p.1
         let k := tcpConsegna amb s.1
         (k.1, p.2 ++ s.2 ++ k.2))
  -- The SYN goes again.
  | ripete {amb : Ambiente} {ora oraSpingi : UInt32} : c.stato = .synInvia →
      Effetto c (.scadenza amb ora oraSpingi)
        (let m := tcpManda amb { riavvolta ora c with finFuori := c.finFuori } { syn := true } []
         ({ m.1 with sndNxt := c.sndUna + 1 }, [m.2]))
  | ritrasmette {amb : Ambiente} {ora oraSpingi : UInt32} : c.rtoScade ≠ 0 → c.stato ≠ .synInvia →
      Effetto c (.scadenza amb ora oraSpingi) (tcpSpingi amb oraSpingi (riavvolta ora c))
  | invia {amb : Ambiente} {ora : UInt32} {dati : List UInt8} :
      c.stato = .aperta ∨ c.stato = .finSuo → tcpAccettati c dati ≠ [] →
      chiamata c (.invia amb ora dati) = some { c with tx := c.tx ++ tcpAccettati c dati } →
      Effetto c (.invia amb ora dati)
        (tcpSpingi amb ora { c with tx := c.tx ++ tcpAccettati c dati })
  | addio {e : EventoTcp} {amb : Ambiente} {ore : Ore} {r : Ricezione} {pid : UInt32}
      {fin chiusa : Bool} : c.stato = .aperta ∨ c.stato = .finSuo →
      chiamata c e = some (finDeciso c) →
      e = .mezza amb ore ∨ e = .chiudi amb ore ∨ e = .finOrfana amb ore →
      Effetto c e (tcpMandaFin amb ore { c with
        toRicezione := r, attesaPid := pid, finC := fin, chiusaCliente := chiusa })
  | riceve {amb : Ambiente} {cliente : UInt32} : c.stato ≠ .libera →
      Effetto c (.ricevi amb cliente) (tcpRicevi amb cliente c)
  | azzera : Effetto c .azzera (Conn.azzerata, [])

section Effects

variable {c : Conn} {amb : Ambiente} {a : Arrivo} {r : Conn × List Segmento}

theorem tcpConsegna_vuoti : ∀ s ∈ (tcpConsegna amb c).2, s.dati = [] :=
  fun s mem => (tcpConsegna_ack amb c s mem).noDati

theorem Nascita.mittente (nascita : Nascita amb c a r) : r.1.mittente = c.mittente ∨
    (a.ack = c.sndNxt ∧
      r.1.mittente = { c.mittente with sndUna := a.ack, stato := .aperta, rtoScade := 0 }) := by
  rcases nascita with ⟨_, rfl⟩ | ⟨_, rfl⟩
  · rw [trattaSynInvia]
    split
    · exact .inl rfl
    split
    · exact .inl rfl
    · next isNext => exact .inr ⟨not_not.mp isNext, rfl⟩
  · rw [trattaSynRicev]
    split
    · exact .inl rfl
    split
    · exact .inl rfl
    split
    · exact .inl rfl
    rename_i isNext
    refine .inr ⟨not_not.mp isNext, ?_⟩
    dsimp only
    split
    · exact tcpConsegna_mittente amb _
    · rfl

theorem Nascita.vuoti (nascita : Nascita amb c a r) : ∀ s ∈ r.2, s.dati = [] := by
  have one : ∀ {s : Segmento}, s.dati = [] → ∀ d ∈ [s], d.dati = [] :=
    fun empty d mem => mem_singleton.mp mem ▸ empty
  rcases nascita with ⟨_, rfl⟩ | ⟨_, rfl⟩
  · rw [trattaSynInvia]
    split
    · exact forall_mem_nil _
    split
    · exact forall_mem_nil _
    · exact one rfl
  · rw [trattaSynRicev]
    split
    · exact one rfl
    split
    · exact forall_mem_nil _
    split
    · exact forall_mem_nil _
    dsimp only
    split
    · exact forall_mem_cons.mpr ⟨rfl, tcpConsegna_vuoti⟩
    · exact forall_mem_nil _

theorem not_chiude_of_aperta (opened : c.stato = .aperta ∨ c.stato = .finSuo) :
    c.chiude = false := by
  rcases opened with isOpen | isOpen <;> rw [Conn.chiude, isOpen] <;> rfl

theorem tcpAccettati_corta (corta : c.tx.length ≤ 4096) {dati : List UInt8} :
    (c.tx ++ tcpAccettati c dati).length ≤ 4096 := by
  have isLen := Conn.toNat_txLen corta
  have isRoom : (tcpBuf - c.txLen).toNat = 4096 - c.tx.length := by
    rw [UInt32.toNat_sub_of_le _ _ (UInt32.le_iff_toNat_le.mpr (by rw [isLen]; exact corta)), isLen]
    rfl
  rw [length_append, tcpAccettati, length_take]
  omega

theorem Effetto.niente {e : EventoTcp} (isNone : chiamata c e = none) : Effetto c e (c, []) :=
  .fermo c.attesaPid isNone (.inl rfl)

theorem spinge_of_inTabella (found : c.inTabella = true) (notRicev : c.stato ≠ .synRicev)
    (notInvia : c.stato ≠ .synInvia) : c.spinge = true := by
  rw [Conn.inTabella] at found
  rw [Conn.spinge, Conn.chiude]
  cases isStato : c.stato <;> simp_all

theorem inTabella_of_spinge (pushes : c.spinge = true) : c.inTabella = true := by
  rw [Conn.spinge, Conn.chiude] at pushes
  rw [Conn.inTabella]
  cases isStato : c.stato <;> simp_all

theorem segmento_effetto {ore : Ore} :
    Effetto c (.segmento amb ore a) (passoTcp c (.segmento amb ore a)) := by
  rw [passoTcp]
  by_cases found : c.inTabella = true
  case neg =>
    rw [if_neg found]
    exact .niente (if_neg fun all => found all.1)
  rw [if_pos found, trattaTcp]
  split
  case isTrue reset =>
    have live : c.stato ≠ .libera := by
      intro free
      rw [Conn.inTabella, free] at found
      exact absurd found (by decide)
    exact .muore live (if_neg fun all => all.2.1 reset) rfl
  case isFalse reset =>
    dsimp only
    split
    case h_1 ricev => exact .nasce (.inr ⟨ricev, rfl⟩) (if_neg fun all => all.2.2.1 ricev)
    case h_2 invia => exact .nasce (.inl ⟨invia, rfl⟩) (if_neg fun all => all.2.2.2 invia)
    case h_3 ricev invia =>
      exact .aperta (spinge_of_inTabella found ricev invia) (Bool.eq_false_iff.mpr reset)
        (if_pos ⟨found, reset, ricev, invia⟩)

theorem scadenza_effetto {ora oraSpingi : UInt32} :
    Effetto c (.scadenza amb ora oraSpingi) (passoTcp c (.scadenza amb ora oraSpingi)) := by
  rw [passoTcp]
  split
  · exact .niente rfl
  rename_i live
  rw [tcpScadenza]
  split
  · exact .muore live rfl rfl
  split
  · dsimp only
    split
    · exact .muore live rfl rfl
    · exact .fermo 0 rfl (.inr rfl)
  split
  · exact .niente rfl
  rename_i running
  rw [tcpRitrasmetti]
  dsimp only
  split
  · exact .muore live rfl rfl
  split
  · next invia => exact .ripete invia
  · next invia => exact .ritrasmette (not_or.mp running).1 invia

theorem passoTcp_effetto (c : Conn) (e : EventoTcp) : Effetto c e (passoTcp c e) := by
  cases e with
  | segmento amb ore a => exact segmento_effetto
  | scadenza amb ora oraSpingi => exact scadenza_effetto
  | invia amb ora dati =>
    rw [passoTcp, tcpInvia]
    split
    · next closed => exact .niente (if_neg fun sends => not_or.mpr closed sends.1)
    rename_i opened
    split
    · next absent => exact .niente (if_neg fun sends => sends.2 absent)
    · next given =>
      have isOpen := (not_and_or.mp opened).imp not_not.mp not_not.mp
      exact .invia isOpen given (if_pos ⟨isOpen, given⟩)
  | mezza amb ore =>
    rw [passoTcp, tcpMezza]
    split
    · next opened => exact .addio opened (if_pos opened) (.inl rfl)
    · next opened => exact .niente (if_neg opened)
  | chiudi amb ore =>
    rw [passoTcp]
    split
    · next free =>
      refine .niente (if_neg fun all => ?_)
      rw [free] at all
      nomatch all.2
    rename_i live
    rw [tcpChiudi]
    split
    · next closed => exact .niente (if_neg fun all => all.1 closed)
    rename_i closed
    dsimp only
    split
    · next opened => exact .addio opened (if_pos ⟨closed, opened⟩) (.inr (.inl rfl))
    rename_i opened
    have isNone : chiamata c (.chiudi amb ore) = none := if_neg fun all => opened all.2
    split
    · exact .muore live isNone rfl
    · next closing =>
      exact .chiuso (chiude_iff.mpr ((not_and_or.mp closing).imp not_not.mp not_not.mp)) isNone
  | finOrfana amb ore =>
    rw [passoTcp, tcpFinOrfana]
    split
    · next opened => exact .addio opened.1 (if_pos opened) (.inr (.inr rfl))
    · next opened => exact .niente (if_neg opened)
  | ricevi amb cliente =>
    rw [passoTcp]
    split
    · exact .niente rfl
    · next live => exact .riceve live
  | lascia => exact .fermo 0 rfl (.inr rfl)
  | azzera => exact .azzera

end Effects

end ExOs.Net
