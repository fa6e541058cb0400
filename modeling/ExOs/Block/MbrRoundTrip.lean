import ExOs.Block.Mbr

/-!
# What the partition writer leaves is what the partition reader reports

The writer validates a proposal with the reader's own validator, but keeps the
446 boot bytes it found, and the reader looks at those, and at the type codes,
before the entries.
-/

namespace ExOs.Block.Mbr

open ExOs.Library List Buffer

/-- One entry passes every check that does not involve another entry. -/
structure Sana (disco : UInt64) (a : Partizione) : Prop where
  flag : a.attiva = 0x00 ∨ a.attiva = 0x80
  lunga : a.settori ≠ 0
  estremi : criticaEstremi disco a = 0

/-- Two entries share no sector, in the arithmetic of the source. -/
def Disgiunte (a b : Partizione) : Prop :=
  ¬ (a.inizio < b.inizio + b.settori ∧ b.inizio < a.inizio + a.settori)

/-- The proposals the round trip is about: primary, no container. -/
def Primaria (a : Partizione) : Prop := a.logica = 0 ∧ tipoEsteso a.tipo = false

theorem criticaCoppie_eq_zero {a : Partizione} (primaria : Primaria a) :
    ∀ {resto : List Partizione}, (∀ b ∈ resto, Primaria b) → (criticaCoppie a resto = 0 ↔
        ∀ b ∈ resto, b.tipo ≠ 0 → b.settori ≠ 0 → Disgiunte a b)
  | [], _ => by simp [criticaCoppie]
  | b :: resto, primarie => by
      have primariaB : Primaria b := primarie b (by simp)
      have primarieResto : ∀ c ∈ resto, Primaria c :=
        fun c mem => primarie c (mem_cons_of_mem b mem)
      have coda := criticaCoppie_eq_zero primaria primarieResto
      have nonContenitori : tipoEsteso a.tipo = false ∧ tipoEsteso b.tipo = false :=
        ⟨primaria.2, primariaB.2⟩
      simp only [criticaCoppie, UInt32.or_eq_zero_iff, coda, forall_mem_cons]
      refine and_congr ?_ Iff.rfl
      by_cases vuota : b.tipo = 0 ∨ b.settori = 0
      · simp only [vuota, if_true, true_iff]
        intro tipoB settoriB
        exact absurd vuota (by simp [tipoB, settoriB])
      have piena : b.tipo ≠ 0 ∧ b.settori ≠ 0 := not_or.mp vuota
      by_cases comuni : a.inizio < b.inizio + b.settori ∧ b.inizio < a.inizio + a.settori
      · simp [piena, nonContenitori, comuni, Disgiunte, probSovrapp]
      · simp [piena, nonContenitori, comuni, Disgiunte]

/-- The validator accepts a list of primaries exactly when every used entry
is sound and no two of them overlap. -/
theorem mbrValidaDa_eq_zero (disco : UInt64) (nEstese : Nat) : ∀ {voci : List Partizione},
      (∀ a ∈ voci, Primaria a) →
      (mbrValidaDa disco nEstese voci = 0 ↔ (∀ a ∈ voci, a.tipo ≠ 0 → Sana disco a) ∧
          voci.Pairwise fun a b =>
            a.tipo ≠ 0 → b.tipo ≠ 0 → b.settori ≠ 0 → Disgiunte a b)
  | [], _ => by simp [mbrValidaDa]
  | a :: resto, primarie => by
      have primariaA : Primaria a := primarie a (by simp)
      have primarieResto : ∀ b ∈ resto, Primaria b :=
        fun b mem => primarie b (mem_cons_of_mem a mem)
      have coda := mbrValidaDa_eq_zero disco nEstese primarieResto
      by_cases libera : a.tipo = 0
      · simp [mbrValidaDa, libera, coda, pairwise_cons]
      by_cases corta : a.settori = 0
      · have rifiutata : ¬ Sana disco a := fun sana => sana.lunga corta
        simp [mbrValidaDa, libera, corta, rifiutata, probVuota]
      have nonContenitore : ¬ (a.logica = 0 ∧ tipoEsteso a.tipo = true) := by simp [primariaA.2]
      simp only [mbrValidaDa, libera, corta, if_false, nonContenitore,
        false_and, UInt32.or_eq_zero_iff, coda, criticaCoppie_eq_zero primariaA primarieResto,
        forall_mem_cons, pairwise_cons]
      constructor
      · rintro ⟨⟨⟨⟨flag, estremi⟩, _⟩, coppie⟩, sane, ordine⟩
        have avvio : a.attiva = 0x00 ∨ a.attiva = 0x80 := by
          by_contra altro
          rw [if_pos (not_or.mp altro)] at flag
          nomatch flag
        exact ⟨⟨fun _ => ⟨avvio, corta, estremi⟩, sane⟩,
          fun b mem _ tipoB settoriB => coppie b mem tipoB settoriB, ordine⟩
      · rintro ⟨⟨sana, sane⟩, coppie, ordine⟩
        have sanaA := sana libera
        refine ⟨⟨⟨⟨?_, sanaA.estremi⟩, trivial⟩, ?_⟩, sane, ordine⟩
        · rcases sanaA.flag with zero | attiva
          · simp [zero]
          · simp [attiva]
        · intro b mem tipoB settoriB
          exact coppie b mem libera tipoB settoriB

variable {disco : UInt64} {pos i : Nat} {voci : List Partizione} {v : Partizione}

theorem Sana.estremi_lt {a : Partizione} (sana : Sana disco a) :
    a.inizio.toNat < 2 ^ 32 ∧ a.settori.toNat < 2 ^ 32 := by
  have estremi := sana.estremi
  simp only [criticaEstremi, UInt32.or_eq_zero_iff] at estremi
  obtain ⟨⟨nonZero, dentro⟩, esprimibile⟩ := estremi
  have inizioPos : a.inizio ≠ 0 := by
    intro zero
    rw [if_pos zero] at nonZero
    nomatch nonZero
  have nonTrabocca : ¬ a.inizio + a.settori < a.inizio := by
    intro trabocca
    rw [if_pos (.inr (.inr trabocca))] at dentro
    nomatch dentro
  have corta : ¬ (0x100000000 : UInt64) < a.inizio + a.settori := by
    intro lunga
    rw [if_pos lunga] at esprimibile
    nomatch esprimibile
  have inizioPos' : a.inizio.toNat ≠ 0 := by
    intro zero
    exact inizioPos (UInt64.toNat_inj.mp zero)
  have lunga : a.settori.toNat ≠ 0 := by
    intro zero
    exact sana.lunga (UInt64.toNat_inj.mp zero)
  have settoriLt := a.settori.toNat_lt
  rw [UInt64.lt_iff_toNat_lt, UInt64.toNat_add] at nonTrabocca corta
  have limite : (0x100000000 : UInt64).toNat = 4294967296 := rfl
  omega

variable (sett : Buffer)

theorem chsMetti_outside {out : Nat} {lba : UInt64} (outside : pos < out ∨ out + 3 ≤ pos) :
    chsMetti sett out lba pos = sett pos := by
  unfold chsMetti
  split
  · rw [set_other, set_other, set_other] <;> omega
  · rw [set_other, set_other, set_other] <;> omega

theorem scriviVoce_outside {sett : Buffer} (out : pos < voce i ∨ voce i + 16 ≤ pos) :
    scriviVoce voci sett i pos = sett pos := by
  have pulito : sett.fill (voce i) 16 0 pos = sett pos := fill_outside sett out
  cases found : voci[i]? with
  | none =>
    simpa only [scriviVoce, found] using pulito
  | some v =>
    by_cases libera : v.tipo = 0 ∨ v.settori = 0
    · simpa only [scriviVoce, found, if_pos libera] using pulito
    simp only [scriviVoce, found, if_neg libera]
    rw [putLe32_outside _ _ (by omega), putLe32_outside _ _ (by omega),
      chsMetti_outside _ (by omega), chsMetti_outside _ (by omega),
      set_other _ (by omega), set_other _ (by omega),
      pulito]

/-- Slot `i` of the proposal holds an entry the writer writes out. -/
def Piena (voci : List Partizione) (i : Nat) (v : Partizione) : Prop :=
  voci[i]? = some v ∧ v.tipo ≠ 0 ∧ v.settori ≠ 0

theorem scriviVoce_tipo_zero (libera : ∀ v, ¬ Piena voci i v) :
    scriviVoce voci sett i (voce i + 4) = 0 := by
  have zero : sett.fill (voce i) 16 0 (voce i + 4) = 0 :=
    fill_inside sett (by omega) (by omega)
  cases found : voci[i]? with
  | none =>
    simpa only [scriviVoce, found] using zero
  | some v =>
    by_cases vuota : v.tipo = 0 ∨ v.settori = 0
    · simpa only [scriviVoce, found, if_pos vuota] using zero
    · exact absurd ⟨found, not_or.mp vuota⟩ (libera v)

/-- The four fields of a written entry read back as they were proposed, the
two lengths modulo the width of their fields. -/
theorem scriviVoce_piena (piena : Piena voci i v) :
    scriviVoce voci sett i (voce i) = v.attiva ∧ scriviVoce voci sett i (voce i + 4) = v.tipo ∧
      (scriviVoce voci sett i).le32 (voce i + 8) = v.inizio.toNat % 2 ^ 32 ∧
      (scriviVoce voci sett i).le32 (voce i + 12) = v.settori.toNat % 2 ^ 32 := by
  obtain ⟨found, tipo, settori⟩ := piena
  have scritta : ¬ (v.tipo = 0 ∨ v.settori = 0) := not_or.mpr ⟨tipo, settori⟩
  simp only [scriviVoce, found, if_neg scritta]
  refine ⟨?_, ?_, ?_, ?_⟩
  · rw [putLe32_outside _ _ (by omega), putLe32_outside _ _ (by omega),
      chsMetti_outside _ (by omega), chsMetti_outside _ (by omega),
      set_other _ (by omega), set_same]
  · rw [putLe32_outside _ _ (by omega), putLe32_outside _ _ (by omega),
      chsMetti_outside _ (by omega), chsMetti_outside _ (by omega),
      set_same]
  · rw [le32_congr fun pos lower upper =>
        putLe32_outside _ _ (by omega)]
    exact le32_putLe32 _
  · exact le32_putLe32 _

theorem scriviVoci_prima {indici : List Nat} : ∀ sett : Buffer, (∀ j ∈ indici, pos < voce j) →
      indici.foldl (scriviVoce voci) sett pos = sett pos := by
  induction indici with
  | nil => exact fun _ _ => rfl
  | cons j indici ih =>
    intro sett pre
    rw [foldl_cons, ih _ fun k mem => pre k (mem_cons_of_mem j mem)]
    exact scriviVoce_outside (.inl (pre j mem_cons_self))

/-- In the sector sent to the disk, the bytes of entry `i` are those its own
turn of the loop wrote. -/
theorem componi_voce {sett : Buffer} (primaria : i < 4) :
    ∃ prima : Buffer, ∀ pos, voce i ≤ pos → pos < voce i + 16 →
        componi voci sett pos = scriviVoce voci prima i pos := by
  have divided : [0, 1, 2, 3] = range i ++ i :: range' (i + 1) (3 - i) := by
    rcases (by omega : i = 0 ∨ i = 1 ∨ i = 2 ∨ i = 3) with rfl | rfl | rfl | rfl <;> rfl
  unfold componi
  generalize (if firmaPresente sett then sett else sett.fill 0 offTabella 0) = avvio
  refine ⟨(range i).foldl (scriviVoce voci) avvio, fun pos lower upper => ?_⟩
  simp only [voce, offTabella] at upper
  rw [set_other _ (by simp only [offFirma]; omega),
    set_other _ (by simp only [offFirma]; omega), divided, foldl_append, foldl_cons]
  apply scriviVoci_prima
  intro j mem
  have beyond := (mem_range'_1.mp mem).1
  simp only [voce, offTabella]
  omega

/-! ## Reading the entries back -/

/-- What the reader lists for slot `i` of a proposal. -/
def elencata (voci : List Partizione) (i : Nat) : List Partizione :=
  match voci[i]? with
  | none => []
  | some v =>
    if v.tipo = 0 ∨ v.settori = 0 then []
    else [{ v with logica := 0, numero := UInt8.ofNat (i + 1) }]

theorem elencata_piena (piena : Piena voci i v) :
    elencata voci i = [{ v with logica := 0, numero := UInt8.ofNat (i + 1) }] := by
  have usata : ¬ (v.tipo = 0 ∨ v.settori = 0) := not_or.mpr piena.2
  simp [elencata, piena.1, usata]

theorem elencata_libera (libera : ∀ v, ¬ Piena voci i v) : elencata voci i = [] := by
  unfold elencata
  split
  · rfl
  rename_i v found
  split
  · rfl
  · rename_i usata
    exact absurd ⟨found, not_or.mp usata⟩ (libera v)

theorem of_mem_elencata {q : Partizione} (mem : q ∈ elencata voci i) :
    ∃ v, Piena voci i v ∧ q = { v with logica := 0, numero := UInt8.ofNat (i + 1) } := by
  by_cases piena : ∃ v, Piena voci i v
  · obtain ⟨v, pienaV⟩ := piena
    rw [elencata_piena pienaV, mem_singleton] at mem
    exact ⟨v, pienaV, mem⟩
  · have libera : ∀ v, ¬ Piena voci i v := fun v pienaV => piena ⟨v, pienaV⟩
    rw [elencata_libera libera] at mem
    cases mem

theorem elencata_length_le (voci : List Partizione) (i : Nat) : (elencata voci i).length ≤ 1 := by
  unfold elencata
  split
  · exact Nat.zero_le 1
  · split
    · exact Nat.zero_le 1
    · exact Nat.le_refl 1

/-- The entries the reader lists for a whole written table. -/
def elencate (voci : List Partizione) : List Partizione := [0, 1, 2, 3].flatMap (elencata voci)

section

variable (primarie : ∀ v ∈ voci, Primaria v)

include primarie

/-- One turn of the reading loop over a written sector appends exactly the
entry of that slot. -/
theorem leggiVoce_componi (sane : ∀ v ∈ voci, v.tipo ≠ 0 → Sana disco v) (primaria : i < 4)
    {elenco : List Partizione} (posto : elenco.length < maxPart) :
    leggiVoce (componi voci sett) ⟨⟨.mbr, 0, elenco⟩, 0, 0, 0⟩ i =
      ⟨⟨.mbr, 0, elenco ++ elencata voci i⟩, 0, 0, 0⟩ := by
  obtain ⟨prima, uguali⟩ := componi_voce primaria
  have tipoUguale : componi voci sett (voce i + 4) = scriviVoce voci prima i (voce i + 4) :=
    uguali (voce i + 4) (by omega) (by omega)
  by_cases piena : ∃ v, Piena voci i v
  · obtain ⟨v, pienaV⟩ := piena
    have mem : v ∈ voci := mem_of_getElem? pienaV.1
    have sana := sane v mem pienaV.2.1
    obtain ⟨inizioLt, settoriLt⟩ := sana.estremi_lt
    obtain ⟨attiva, tipo, inizio, settori⟩ := scriviVoce_piena prima pienaV
    have attivaLetta : componi voci sett (voce i) = v.attiva := by
      rw [uguali (voce i) (by omega) (by omega), attiva]
    have tipoLetto : componi voci sett (voce i + 4) = v.tipo := by rw [tipoUguale, tipo]
    have inizioLetto : (componi voci sett).le32 (voce i + 8) = v.inizio.toNat := by
      rw [le32_congr fun pos lower upper =>
          uguali pos (by omega) (by omega),
        inizio, Nat.mod_eq_of_lt inizioLt]
    have settoriLetti : (componi voci sett).le32 (voce i + 12) = v.settori.toNat := by
      rw [le32_congr fun pos lower upper =>
          uguali pos (by omega) (by omega),
        settori, Nat.mod_eq_of_lt settoriLt]
    have nonZero : v.settori.toNat ≠ 0 := fun zero => sana.lunga (UInt64.toNat_inj.mp zero)
    have avvio : ¬ (v.attiva ≠ 0x00 ∧ v.attiva ≠ 0x80) := by
      rintro ⟨nonSpenta, nonAccesa⟩
      exact sana.flag.elim nonSpenta nonAccesa
    have spazio : ¬ maxPart ≤ elenco.length := by omega
    simp [leggiVoce, attivaLetta, tipoLetto, inizioLetto, settoriLetti,
      pienaV.2.1, nonZero, avvio, (primarie v mem).2, aggiungi, spazio, elencata_piena pienaV]
  · have libera : ∀ v, ¬ Piena voci i v := fun v pienaV => piena ⟨v, pienaV⟩
    have tipoLetto : componi voci sett (voce i + 4) = 0 := by
      rw [tipoUguale, scriviVoce_tipo_zero prima libera]
    simp [leggiVoce, tipoLetto, elencata_libera libera]

theorem foldl_leggiVoce_componi (sane : ∀ v ∈ voci, v.tipo ≠ 0 → Sana disco v) :
    [0, 1, 2, 3].foldl (leggiVoce (componi voci sett)) ⟨⟨.mbr, 0, []⟩, 0, 0, 0⟩ =
      ⟨⟨.mbr, 0, elencate voci⟩, 0, 0, 0⟩ := by
  have prima := elencata_length_le voci 0
  have seconda := elencata_length_le voci 1
  have terza := elencata_length_le voci 2
  simp only [foldl_cons, foldl_nil]
  rw [leggiVoce_componi sett primarie sane (by decide) (by decide),
    leggiVoce_componi sett primarie sane (by decide) (by
      simp only [length_append, length_nil, maxPart]
      omega),
    leggiVoce_componi sett primarie sane (by decide) (by
      simp only [length_append, length_nil, maxPart]
      omega),
    leggiVoce_componi sett primarie sane (by decide) (by
      simp only [length_append, length_nil, maxPart]
      omega)]
  simp [elencate]

/-- The list the reader ends with passes the validator again: it is the
proposal without its free slots. -/
theorem mbrValida_elencate (valida : mbrValida voci disco = 0) :
    mbrValida (elencate voci) disco = 0 := by
  obtain ⟨sane, disgiunte⟩ := (mbrValidaDa_eq_zero _ 0 primarie).mp valida
  have membro : ∀ q ∈ elencate voci, ∃ i v, Piena voci i v ∧
        q = { v with logica := 0, numero := UInt8.ofNat (i + 1) } := by
    intro q mem
    obtain ⟨i, _, member⟩ := mem_flatMap.mp mem
    obtain ⟨v, piena, equal⟩ := of_mem_elencata member
    exact ⟨i, v, piena, equal⟩
  refine (mbrValidaDa_eq_zero _ 0 ?_).mpr ⟨?_, ?_⟩
  · intro q mem
    obtain ⟨i, v, piena, rfl⟩ := membro q mem
    exact ⟨rfl, (primarie v (mem_of_getElem? piena.1)).2⟩
  · intro q mem _
    obtain ⟨i, v, piena, rfl⟩ := membro q mem
    have sana := sane v (mem_of_getElem? piena.1) piena.2.1
    exact { sana with }
  · refine pairwise_flatMap.mpr ⟨?_, ?_⟩
    · intro i _
      have corta := elencata_length_le voci i
      match elencata voci i, corta with
      | [], _ => exact List.Pairwise.nil
      | [q], _ => exact pairwise_singleton _ q
    · have ordinati : [0, 1, 2, 3].Pairwise fun i j : Nat => i < j := by decide
      refine ordinati.imp ?_
      intro i j pre left leftMember right rightMember _ _ _
      obtain ⟨v, pienaV, rfl⟩ := of_mem_elencata leftMember
      obtain ⟨w, pienaW, rfl⟩ := of_mem_elencata rightMember
      obtain ⟨boundI, atI⟩ := List.getElem?_eq_some_iff.mp pienaV.1
      obtain ⟨boundJ, atJ⟩ := List.getElem?_eq_some_iff.mp pienaW.1
      have coppia := pairwise_iff_getElem.mp disgiunte i j boundI boundJ pre
      rw [atI, atJ] at coppia
      exact coppia pienaV.2.1 pienaW.2.1 pienaW.2.2

end

/-! ## The round trip -/

/-- A proposed slot that describes a partition. -/
def usata (v : Partizione) : Bool := v.tipo != 0 && v.settori != 0

/-- The four fields of an entry that a table on the disk carries. -/
def campi (v : Partizione) : UInt8 × UInt8 × UInt64 × UInt64 :=
  (v.tipo, v.attiva, v.inizio, v.settori)

/-- The reader reports a sound MBR with exactly the proposed partitions, in
their order. -/
def Fedele (voci : List Partizione) (letta : Option TabellaPartizioni) : Prop :=
  ∃ t, letta = some t ∧ t.schema = .mbr ∧ t.problemi = 0 ∧
    t.p.map campi = (voci.filter usata).map campi

private theorem elencata_map_campi (found : voci[i]? = some v) :
    (elencata voci i).map campi = ([v].filter usata).map campi := by
  by_cases vuota : v.tipo = 0 ∨ v.settori = 0
  · have scartata : usata v = false := by rcases vuota with zero | zero <;> simp [usata, zero]
    simp [elencata, found, vuota, scartata]
  · have tenuta : usata v = true := by simpa [usata] using not_or.mp vuota
    simp [elencata, found, vuota, tenuta, campi]

private theorem elencata_oltre (oltre : voci.length ≤ i) : elencata voci i = [] := by
  simp [elencata, List.getElem?_eq_none oltre]

theorem elencate_map_campi (quante : voci.length ≤ 4) :
    (elencate voci).map campi = (voci.filter usata).map campi := by
  have spezza : ∀ (v : Partizione) (resto : List Partizione),
        ((v :: resto).filter usata).map campi =
          ([v].filter usata).map campi ++ (resto.filter usata).map campi := by
    intro v resto
    rw [← map_append, ← filter_append]
    rfl
  simp only [elencate, flatMap_cons, flatMap_nil, append_nil, map_append]
  match voci, quante with
  | [], _ =>
    rfl
  | [a], _ =>
    rw [elencata_map_campi (v := a) rfl, elencata_oltre (by simp),
      elencata_oltre (by simp), elencata_oltre (by simp)]
    simp
  | [a, b], _ =>
    rw [elencata_map_campi (v := a) rfl, elencata_map_campi (v := b) rfl,
      elencata_oltre (by simp), elencata_oltre (by simp), spezza a [b]]
    simp only [map_nil, append_nil]
  | [a, b, c], _ =>
    rw [elencata_map_campi (v := a) rfl, elencata_map_campi (v := b) rfl,
      elencata_map_campi (v := c) rfl, elencata_oltre (by simp),
      spezza a [b, c], spezza b [c]]
    simp only [map_nil, append_nil]
  | [a, b, c, d], _ =>
    rw [elencata_map_campi (v := a) rfl, elencata_map_campi (v := b) rfl,
      elencata_map_campi (v := c) rfl, elencata_map_campi (v := d) rfl,
      spezza a [b, c, d], spezza b [c, d], spezza c [d]]

theorem componi_avvio {sett : Buffer} (pre : pos < offTabella) :
    componi voci sett pos = if firmaPresente sett then sett pos else 0 := by
  have prima : pos < 446 := pre
  simp only [componi]
  rw [set_other _ (by simp [offFirma]; omega),
    set_other _ (by simp [offFirma]; omega),
    scriviVoci_prima _ fun j _ => Nat.lt_of_lt_of_le pre (Nat.le_add_right _ _)]
  split
  · rfl
  · exact Buffer.fill_inside sett (Nat.zero_le _) (by omega)

theorem firmaPresente_componi (voci : List Partizione) (sett : Buffer) :
    firmaPresente (componi voci sett) = true := by
  simp [firmaPresente, componi, Buffer.set, offFirma]

/-- The new sector passes for a volume boot record exactly when the old one
carried the signature and did. -/
theorem settoreDiVolume_componi (voci : List Partizione) (sett : Buffer) :
    settoreDiVolume (componi voci sett) = (firmaPresente sett && settoreDiVolume sett) := by
  have byte : ∀ pos, pos < 17 → componi voci sett pos =
          if firmaPresente sett then sett pos else 0 := by
    intro pos small
    exact componi_avvio (by simp only [offTabella]; omega)
  cases firma : firmaPresente sett with
  | true =>
    simp only [settoreDiVolume, byte 0 (by decide), byte 2 (by decide),
      byte 11 (by decide), byte 12 (by decide), byte 13 (by decide),
      byte 16 (by decide), firma, if_true, Bool.true_and]
  | false =>
    simp [settoreDiVolume, byte 0 (by decide), byte 2 (by decide), firma]

/-- The protective type code shows in the new sector exactly when the
proposal used it. -/
theorem tipo_protettivo_componi (quante : voci.length ≤ 4)
    (lunghe : ∀ v ∈ voci, v.tipo ≠ 0 → v.settori ≠ 0) :
    ([0, 1, 2, 3].any fun i => componi voci sett (voce i + 4) == 0xEE) = true ↔
      ∃ v ∈ voci, v.tipo = 0xEE := by
  have tipoLetto : ∀ i, i < 4 → ∀ v, Piena voci i v → componi voci sett (voce i + 4) = v.tipo := by
    intro i primaria v piena
    obtain ⟨prima, uguali⟩ := componi_voce primaria
    rw [uguali (voce i + 4) (by omega) (by omega), (scriviVoce_piena prima piena).2.1]
  constructor
  · intro trovato
    obtain ⟨i, mem, protettivo⟩ := any_eq_true.mp trovato
    have primaria : i < 4 := by
      simp only [mem_cons, not_mem_nil, or_false] at mem
      omega
    have tipo : componi voci sett (voce i + 4) = 0xEE := by simpa using protettivo
    by_cases piena : ∃ v, Piena voci i v
    · obtain ⟨v, pienaV⟩ := piena
      refine ⟨v, mem_of_getElem? pienaV.1, ?_⟩
      rw [← tipoLetto i primaria v pienaV, tipo]
    have libera : ∀ v, ¬ Piena voci i v := fun v pienaV => piena ⟨v, pienaV⟩
    obtain ⟨prima, uguali⟩ := componi_voce primaria
    rw [uguali (voce i + 4) (by omega) (by omega), scriviVoce_tipo_zero prima libera] at tipo
    nomatch tipo
  · rintro ⟨v, mem, tipo⟩
    obtain ⟨i, bound, atI⟩ := getElem_of_mem mem
    have usato : v.tipo ≠ 0 := by
      rw [tipo]
      decide
    have piena : Piena voci i v := ⟨by rw [List.getElem?_eq_getElem bound, atI], usato,
        lunghe v mem usato⟩
    have primaria : i < 4 := by omega
    refine any_eq_true.mpr ⟨i, ?_, ?_⟩
    · simp only [mem_cons, not_mem_nil, or_false]
      omega
    · rw [tipoLetto i primaria v piena, tipo]
      rfl

theorem mbrScrivi_ok {disco dopo : Disco} {maschera : UInt32}
    (scritta : mbrScrivi disco voci = (.ok (), maschera, dopo)) :
    voci.length ≤ 4 ∧ ∃ d sett, disco.settore 0 = some sett ∧
        d.settori ≠ 0 ∧ mbrValida voci d.settori = 0 ∧ dopo.pronto = some d ∧
        dopo.settore 0 = some (componi voci sett) := by
  unfold mbrScrivi at scritta
  split at scritta
  · simp at scritta
  rename_i quante
  refine ⟨Nat.le_of_not_lt quante, ?_⟩
  split at scritta
  · simp at scritta
  rename_i d isP
  simp only [ne_eq, ite_not] at scritta
  split at scritta
  · rename_i valida
    split at scritta
    · simp at scritta
    rename_i attuale letta
    have disponibile : d.settori ≠ 0 := by
      intro zero
      simp [mbrLeggi, isP, mbrLeggiDa, zero] at letta
    split at scritta
    · simp at scritta
    split at scritta
    · simp at scritta
    split at scritta
    · simp at scritta
    rename_i sett inizio
    split at scritta
    · rename_i accetta
      obtain ⟨_, rfl⟩ := scritta
      refine ⟨d, sett, inizio, disponibile, valida, ?_, ?_⟩
      · exact isP
      · simp [ataWrite, accetta]
    · simp at scritta
  · simp at scritta

/-- **Partition table round trip.**  After a successful write of primary,
non-extended entries the reader reports exactly them, with no anomaly, if and
only if the old sector was not a signed volume boot record and no entry uses
the protective type code. -/
theorem mbrScrivi_fedele_iff (disco dopo : Disco) (voci : List Partizione) (sett : Buffer)
    (maschera : UInt32) (primarie : ∀ v ∈ voci, v.logica = 0 ∧ tipoEsteso v.tipo = false)
    (iniziale : disco.settore 0 = some sett)
    (scritta : mbrScrivi disco voci = (.ok (), maschera, dopo)) :
    Fedele voci (mbrLeggi dopo) ↔ ¬ (firmaPresente sett = true ∧ settoreDiVolume sett = true) ∧
        ∀ v ∈ voci, v.tipo ≠ 0xEE := by
  obtain ⟨quante, d, trovato, letto, disponibile, valida, prontoDopo, scritto⟩ :=
    mbrScrivi_ok scritta
  obtain rfl : sett = trovato := Option.some.inj (iniziale.symm.trans letto)
  obtain ⟨sane, _⟩ := (mbrValidaDa_eq_zero _ 0 primarie).mp valida
  have lunghe : ∀ v ∈ voci, v.tipo ≠ 0 → v.settori ≠ 0 := fun v mem tipo => (sane v mem tipo).lunga
  have protettivo := tipo_protettivo_componi sett quante lunghe
  have lettura : mbrLeggi dopo = mbrLeggiDa dopo.settore d.settori := by simp [mbrLeggi, prontoDopo]
  have firma := firmaPresente_componi voci sett
  have volume := settoreDiVolume_componi voci sett
  by_cases diVolume : firmaPresente sett = true ∧ settoreDiVolume sett = true
  · have nascosta : mbrLeggi dopo = some ⟨.nessuno, 0, []⟩ := by
      simp [lettura, mbrLeggiDa, disponibile, scritto, firma, volume, diVolume]
    constructor
    · rintro ⟨t, equal, schema, _⟩
      rw [nascosta] at equal
      cases equal
      cases schema
    · rintro ⟨contrario, _⟩
      exact absurd diVolume contrario
  · have nonVolume : settoreDiVolume (componi voci sett) = false := by
      rw [volume]
      simpa using diVolume
    by_cases gpt : ∃ v ∈ voci, v.tipo = 0xEE
    · have rifiutata : mbrLeggi dopo = some ⟨.gpt, probGpt, []⟩ := by
        simp only [lettura, mbrLeggiDa, disponibile, if_false, scritto, firma,
          nonVolume, protettivo.mpr gpt, if_true, Bool.not_true, Bool.false_eq_true]
      constructor
      · rintro ⟨t, equal, schema, _⟩
        rw [rifiutata] at equal
        cases equal
        cases schema
      · rintro ⟨_, senza⟩
        obtain ⟨v, mem, tipo⟩ := gpt
        exact absurd tipo (senza v mem)
    · have nonProtettivo := mt protettivo.mp gpt
      have riletta : mbrLeggi dopo = some ⟨.mbr, 0, elencate voci⟩ := by
        simp only [lettura, mbrLeggiDa, disponibile, if_false, scritto, firma,
          nonVolume, nonProtettivo, Bool.not_true, Bool.false_eq_true,
          foldl_leggiVoce_componi sett primarie sane, TabellaPartizioni.segnala]
        simpa using mbrValida_elencate primarie valida
      refine ⟨fun _ => ⟨diVolume, ?_⟩, fun _ => ?_⟩
      · intro v mem tipo
        exact gpt ⟨v, mem, tipo⟩
      · exact ⟨_, riletta, rfl, rfl, elencate_map_campi quante⟩

/-- A proposal of two partitions: an active FAT16 one and one of Linux. -/
def duePrimarie : List Partizione :=
  [{ attiva := 0x80, tipo := 0x06, logica := 0, numero := 1, inizio := 63, settori := 1000 },
    { attiva := 0, tipo := 0x83, logica := 0, numero := 2, inizio := 1063, settori := 900 }]

/-- A 2048-sector ATA disk whose sectors are all `sett`. -/
def discoCon (sett : Buffer) : Disco :=
  { device := some ⟨true, true, 2048⟩
    settore := fun _ => some sett
    accetta := true
    residuo := none }

/-- On a disk with other bytes in its first sector the proposal comes back as it was given. -/
theorem mbrScrivi_fedele_due : Fedele duePrimarie
      (mbrLeggi (mbrScrivi (discoCon fun _ => 0x17) duePrimarie).2.2) := by
  have primarie : ∀ v ∈ duePrimarie, v.logica = 0 ∧ tipoEsteso v.tipo = false := by decide
  have scritta : (mbrScrivi (discoCon fun _ => 0x17) duePrimarie).1 = .ok () := by rfl
  refine (mbrScrivi_fedele_iff (discoCon fun _ => 0x17) _ duePrimarie
    (fun _ => 0x17) (mbrScrivi (discoCon fun _ => 0x17) duePrimarie).2.1
    primarie rfl ?_).mpr ⟨by decide, by decide⟩
  rw [← scritta]

/-- The boot sector of an unpartitioned FAT volume: jump, parameter block and
the signature a partition table also carries. -/
def settoreFat : Buffer := fun pos =>
  if pos = 0 then 0xEB
  else if pos = 2 then 0x90
  else if pos = 12 then 2
  else if pos = 13 then 1
  else if pos = 16 then 2
  else if pos = 510 then 0x55
  else if pos = 511 then 0xAA
  else 0

/-- Writing a table over an unpartitioned FAT volume succeeds, and the reader
then sees no table at all: the round trip does not hold for every disk. -/
theorem mbrScrivi_non_fedele_su_volume :
    ¬ ∀ (disco dopo : Disco) (voci : List Partizione) (maschera : UInt32),
        (∀ v ∈ voci, v.logica = 0 ∧ tipoEsteso v.tipo = false) →
        mbrScrivi disco voci = (.ok (), maschera, dopo) → Fedele voci (mbrLeggi dopo) := by
  intro sempre
  have scritta : (mbrScrivi (discoCon settoreFat) duePrimarie).1 = .ok () := by rfl
  obtain ⟨t, equal, schema, _⟩ := sempre (discoCon settoreFat) _ duePrimarie _ (by decide)
      (show mbrScrivi (discoCon settoreFat) duePrimarie = (.ok (), _, _) by rw [← scritta])
  cases equal
  cases schema

end ExOs.Block.Mbr
