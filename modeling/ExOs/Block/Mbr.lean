import ExOs.Library.Buffers

/-!
# The MBR partition table: reader, validator and writer

Embedding of `kernel/block/mbr.c`.  A sector is a byte buffer of which the
first 512 bytes count; the reader goes through a function from sector numbers
to sectors, where `none` is one that cannot be read.  The writer reads the old
table with this very reader, so all of it is kept: the primary entries, the
chain of extended boot records, the tests for a volume boot record and for a
protective MBR.
-/

namespace ExOs.Block.Mbr

open ExOs.Library

/-! ## Data -/

/-- `Partizione`: one entry of a table, read or proposed. -/
structure Partizione where
  attiva : UInt8
  tipo : UInt8
  logica : UInt8
  numero : UInt8
  inizio : UInt64
  settori : UInt64
  deriving DecidableEq, Repr

/-- `PT_SCHEMA_*`. -/
inductive Schema where
  | nessuno
  | mbr
  | gpt
  deriving DecidableEq, Repr

/-- `TabellaPartizioni`; `n` is the length of `p`. -/
structure TabellaPartizioni where
  schema : Schema
  problemi : UInt32
  p : List Partizione
  deriving DecidableEq, Repr

/-- `MBR_MAX_PART`. -/
def maxPart : Nat := 16

def probFirma : UInt32 := 0x0001
def probOltreFine : UInt32 := 0x0002
def probSovrapp : UInt32 := 0x0004
def probCatena : UInt32 := 0x0008
def probBootflag : UInt32 := 0x0010
def probGpt : UInt32 := 0x0020
def probVuota : UInt32 := 0x0040
def probTroppeExt : UInt32 := 0x0080
def probTroncata : UInt32 := 0x0100
def probSettore0 : UInt32 := 0x0200

/-- `MBR_OFF_TABELLA`. -/
def offTabella : Nat := 446

/-- `MBR_OFF_FIRMA`. -/
def offFirma : Nat := 510

/-- `tipo_esteso`: the containers of logical partitions. -/
def tipoEsteso (tipo : UInt8) : Bool := tipo == 0x05 || tipo == 0x0F || tipo == 0x85

/-- `chs_metti`: the three CHS bytes of a sector number. -/
def chsMetti (sett : Buffer) (out : Nat) (lba : UInt64) : Buffer :=
  if 1023 * 255 * 63 ≤ lba.toNat then ((sett.set out 0xFE).set (out + 1) 0xFF).set (out + 2) 0xFF
  else
    let l := lba.toNat
    let s := l % 63 + 1
    let h := l / 63 % 255
    let c := l / (63 * 255)
    ((sett.set out (UInt8.ofNat h)).set (out + 1)
        (UInt8.ofNat ((c >>> 2) &&& 0xC0 ||| s &&& 0x3F))).set (out + 2)
      (UInt8.ofNat (c &&& 0xFF))

def firmaPresente (sett : Buffer) : Bool := sett offFirma == 0x55 && sett (offFirma + 1) == 0xAA

/-- `aggiungi`: one more partition, or the mark of a table too long. -/
def aggiungi (t : TabellaPartizioni) (nuova : Partizione) : TabellaPartizioni :=
  if maxPart ≤ t.p.length then { t with problemi := t.problemi ||| probTroncata }
  else { t with p := t.p ++ [nuova] }

def TabellaPartizioni.segnala (t : TabellaPartizioni) (problema : UInt32) : TabellaPartizioni :=
  { t with problemi := t.problemi ||| problema }

/-- `percorri_estesa`.  `restano` counts down the bounded loop of the source
while `giri` counts up; entry 0 of a record is relative to that record, entry
1 to the start of the extended partition. -/
def percorriEstesa
    (leggi : UInt64 → Option Buffer)
    (extInizio extSettori disco : UInt64) :
    (restano giri : Nat) → (visti : List UInt64) → (ebr : UInt64) →
      TabellaPartizioni → TabellaPartizioni
  | 0, _, _, _, t => t.segnala probCatena
  | restano + 1, giri, visti, ebr, t =>
    if disco ≤ ebr ∨ ebr < extInizio ∨ extInizio + extSettori ≤ ebr then t.segnala probCatena
    else if ebr ∈ visti then t.segnala probCatena
    else
      match leggi ebr with
      | none => t.segnala probCatena
      | some sett =>
        if !firmaPresente sett then t.segnala probCatena
        else
          let a0 := sett offTabella
          let t0 := sett (offTabella + 4)
          let r0Lba := sett.le32 (offTabella + 8)
          let r0N := sett.le32 (offTabella + 12)
          let t1 := sett (offTabella + 16 + 4)
          let r1Lba := sett.le32 (offTabella + 16 + 8)
          let t' :=
            if t0 ≠ 0 ∧ 0 < r0N then
              aggiungi t
                { attiva := a0
                  tipo := t0
                  logica := 1
                  numero := UInt8.ofNat (5 + giri)
                  inizio := ebr + UInt64.ofNat r0Lba
                  settori := UInt64.ofNat r0N }
            else if t0 ≠ 0 then t.segnala probVuota
            else t
          if t1 = 0 ∨ r1Lba = 0 then t'
          else if !tipoEsteso t1 then t'.segnala probCatena
          else
            percorriEstesa leggi extInizio extSettori disco
              restano (giri + 1) (visti ++ [ebr])
              (extInizio + UInt64.ofNat r1Lba) t'

/-- What `mbr_valida` says of one non-empty entry with a non-zero length,
apart from its companions. -/
def criticaEstremi (disco : UInt64) (a : Partizione) : UInt32 :=
  (if a.inizio = 0 then probSettore0 else 0) |||
  (if disco ≤ a.inizio ∨ disco < a.inizio + a.settori ∨ a.inizio + a.settori < a.inizio then
    probOltreFine
  else 0) |||
  (if 0x100000000 < a.inizio + a.settori then probOltreFine else 0)

/-- The inner loop of `mbr_valida`: entry `a` against the ones after it. -/
def criticaCoppie (a : Partizione) : List Partizione → UInt32
  | [] => 0
  | b :: resto =>
    (if b.tipo = 0 ∨ b.settori = 0 then 0
    else if tipoEsteso a.tipo ∧ b.logica ≠ 0 then 0
    else if tipoEsteso b.tipo ∧ a.logica ≠ 0 then 0
    else if a.inizio < b.inizio + b.settori ∧ b.inizio < a.inizio + a.settori then probSovrapp
    else 0) ||| criticaCoppie a resto

/-- The outer loop of `mbr_valida`, with its count of extended entries. -/
def mbrValidaDa (disco : UInt64) : Nat → List Partizione → UInt32
  | _, [] => 0
  | nEstese, a :: resto =>
    if a.tipo = 0 then mbrValidaDa disco nEstese resto
    else
      let flag :=
        if a.attiva ≠ 0x00 ∧ a.attiva ≠ 0x80 then probBootflag else 0
      if a.settori = 0 then flag ||| probVuota ||| mbrValidaDa disco nEstese resto
      else
        let estesa := a.logica = 0 ∧ tipoEsteso a.tipo
        let nEstese' := if estesa then nEstese + 1 else nEstese
        let troppe :=
          if estesa ∧ 1 < nEstese' then probTroppeExt else 0
        flag ||| criticaEstremi disco a ||| troppe |||
          criticaCoppie a resto ||| mbrValidaDa disco nEstese' resto

variable (voci : List Partizione)

/-- `mbr_valida`. -/
def mbrValida (disco : UInt64) : UInt32 := mbrValidaDa disco 0 voci

/-- The volume boot-record test of `mbr_leggi_da`: a jump, and the bytes of a
BIOS parameter block behind it. -/
def settoreDiVolume (sett : Buffer) : Bool :=
  let bps := (sett 11).toNat + 256 * (sett 12).toNat
  let spc := (sett 13).toNat
  let nfat := (sett 16).toNat
  ((sett 0 == 0xEB && sett 2 == 0x90) || sett 0 == 0xE9) &&
    (bps == 512 || bps == 1024 || bps == 2048 || bps == 4096) &&
    spc != 0 && (spc &&& (spc - 1)) == 0 && decide (spc ≤ 128) &&
    decide (1 ≤ nfat) && decide (nfat ≤ 4)

/-- The offset of entry `i` in the sector. -/
def voce (i : Nat) : Nat := offTabella + i * 16

/-- What the loop over the four primary entries carries along. -/
structure Lettura where
  tabella : TabellaPartizioni
  nEstese : Nat
  extInizio : UInt64
  extSettori : UInt64

/-- One turn of the loop of `mbr_leggi_da` over the primary entries. -/
def leggiVoce (sett : Buffer) (stato : Lettura) (i : Nat) : Lettura :=
  let attiva := sett (voce i)
  let tipo := sett (voce i + 4)
  let lba := sett.le32 (voce i + 8)
  let n := sett.le32 (voce i + 12)
  if tipo = 0 then stato
  else
    let tabella :=
      if attiva ≠ 0x00 ∧ attiva ≠ 0x80 then stato.tabella.segnala probBootflag
      else stato.tabella
    if n = 0 then { stato with tabella := tabella.segnala probVuota }
    else
      let nuova : Partizione :=
        { attiva := attiva
          tipo := tipo
          logica := 0
          numero := UInt8.ofNat (i + 1)
          inizio := UInt64.ofNat lba
          settori := UInt64.ofNat n }
      if tipoEsteso tipo then
        if 1 < stato.nEstese + 1 then
          { stato with
            nEstese := stato.nEstese + 1
            tabella := aggiungi (tabella.segnala probTroppeExt) nuova }
        else
          { nEstese := stato.nEstese + 1
            extInizio := UInt64.ofNat lba
            extSettori := UInt64.ofNat n
            tabella := aggiungi tabella nuova }
      else { stato with tabella := aggiungi tabella nuova }

/-- `mbr_leggi_da`; `none` is its -1. -/
def mbrLeggiDa (leggi : UInt64 → Option Buffer) (disco : UInt64) : Option TabellaPartizioni :=
  if disco = 0 then none
  else
    match leggi 0 with
    | none => none
    | some sett =>
      if !firmaPresente sett then some ⟨.nessuno, probFirma, []⟩
      else if settoreDiVolume sett then some ⟨.nessuno, 0, []⟩
      else if [0, 1, 2, 3].any fun i => sett (voce i + 4) == 0xEE then some ⟨.gpt, probGpt, []⟩
      else
        let stato := [0, 1, 2, 3].foldl (leggiVoce sett) ⟨⟨.mbr, 0, []⟩, 0, 0, 0⟩
        let tabella :=
          if stato.nEstese = 1 ∧ 0 < stato.extSettori then
            percorriEstesa leggi stato.extInizio stato.extSettori disco
              (maxPart + 1) 0 [] stato.extInizio stato.tabella
          else stato.tabella
        some (tabella.segnala (mbrValida tabella.p disco))

/-! ## The disk and the writer -/

/-- The fields of `AtaDevice` the module looks at. -/
structure AtaDevice where
  presente : Bool
  ata : Bool
  settori : UInt64

/-- One ATA disk.  `settore lba = none` is a sector `ata_read` fails on;
`accetta` is the outcome of the next `ata_write`, and `residuo` what a failed
one leaves in its sector. -/
structure Disco where
  device : Option AtaDevice
  settore : UInt64 → Option Buffer
  accetta : Bool
  residuo : Option Buffer

variable (disco : Disco)

/-- The device, when it is there and is an ATA disk. -/
def Disco.pronto : Option AtaDevice :=
  disco.device.filter fun d => d.presente && d.ata

/-- `mbr_leggi`. -/
def mbrLeggi : Option TabellaPartizioni :=
  disco.pronto.bind fun d => mbrLeggiDa disco.settore d.settori

/-- `ata_write` of one sector. -/
def ataWrite (lba : UInt64) (sett : Buffer) : Disco :=
  { disco with
    settore := fun altro =>
      if altro = lba then
        if disco.accetta then some sett else disco.residuo
      else disco.settore altro }

inductive Errno where
  | einval
  | enodev
  | eio
  | eperm
  | ebusy
  deriving DecidableEq, Repr

/-- The extended entry of the table on the disk: the last one listed. -/
def estesaDi (attuale : List Partizione) : Option Partizione :=
  (attuale.filter fun q => q.logica == 0 && tipoEsteso q.tipo).getLast?

/-- May the proposal replace a table that holds logical partitions?  Only if
it repeats their container, or is empty. -/
def logicheAlSicuro (attuale voci : List Partizione) : Bool :=
  if attuale.any fun q => q.logica != 0 then
    (match estesaDi attuale with
      | none => false
      | some est =>
        voci.any fun v =>
          v.tipo == est.tipo && v.inizio == est.inizio && v.settori == est.settori) ||
      voci.all fun v => v.tipo == 0 || v.settori == 0
  else true

/-- Entry `i` of the new table: sixteen bytes, zero for a free slot. -/
def scriviVoce (sett : Buffer) (i : Nat) : Buffer :=
  let pulito := sett.fill (voce i) 16 0
  match voci[i]? with
  | none => pulito
  | some v =>
    if v.tipo = 0 ∨ v.settori = 0 then pulito
    else
      let conTipo := (pulito.set (voce i) v.attiva).set (voce i + 4) v.tipo
      let conInizio := chsMetti conTipo (voce i + 1) v.inizio
      let conFine := chsMetti conInizio (voce i + 5) (v.inizio + v.settori - 1)
      (conFine.putLe32 (voce i + 8) v.inizio.toNat).putLe32 (voce i + 12) v.settori.toNat

/-- The sector `mbr_scrivi` sends to the disk: the boot bytes kept, or zeroed
when the signature was missing; then the four entries and the signature. -/
def componi (sett : Buffer) : Buffer :=
  let avvio :=
    if firmaPresente sett then sett else sett.fill 0 offTabella 0
  (([0, 1, 2, 3].foldl (scriviVoce voci) avvio).set offFirma 0x55).set (offFirma + 1) 0xAA

/-- `mbr_scrivi`: the outcome, the mask of the refusal and the disk after. -/
def mbrScrivi (voci : List Partizione) : Except Errno Unit × UInt32 × Disco :=
  if 4 < voci.length then (.error .einval, 0, disco)
  else
    match disco.pronto with
    | none => (.error .enodev, 0, disco)
    | some d =>
      let pb := mbrValida voci d.settori
      if pb ≠ 0 then (.error .einval, pb, disco)
      else
        match mbrLeggi disco with
        | none => (.error .eio, 0, disco)
        | some attuale =>
          if attuale.schema = .gpt then (.error .eperm, probGpt, disco)
          else if !logicheAlSicuro attuale.p voci then (.error .ebusy, 0, disco)
          else
            match disco.settore 0 with
            | none => (.error .eio, 0, disco)
            | some sett =>
              let dopo := ataWrite disco 0 (componi voci sett)
              if disco.accetta then (.ok (), 0, dopo)
              else (.error .eio, 0, dopo)

end ExOs.Block.Mbr
