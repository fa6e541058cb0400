import ExOs.Library.BigEndian
import ExOs.Library.Buffers
import ExOs.Library.Runs

/-!
# The WPA supplicant

`wpa_ricevi` of `lib/exwifi/exwifi.c`, over any hash functions and ciphers.
Every frame is the work of an attacker.
-/

namespace ExOs.Exwifi

open ExOs.Library ExOs.Library.Buffer List

/-! ## The code -/

/-- The functions of `lib/excrypt` and the ciphers of the key data. -/
structure Primitive where
  hmacMd5 : List UInt8 → List UInt8 → List UInt8
  hmacSha1 : List UInt8 → List UInt8 → List UInt8
  rc4 : List UInt8 → List UInt8 → List UInt8
  aesUnwrap : List UInt8 → List UInt8 → Option (List UInt8)

structure WpaPtk where
  kck : List UInt8
  kek : List UInt8
  tk : List UInt8
deriving DecidableEq

/-- The fields that make the pairwise key, and the key. -/
structure Coppia where
  pmk : List UInt8
  aa : List UInt8
  spa : List UInt8
  anonce : List UInt8
  snonce : List UInt8
  rsn : Bool
  cifrario : Nat
  ie : List UInt8
  ptk : WpaPtk
  ptkOk : Bool

structure Gruppo where
  gtk : List UInt8
  gtkN : Nat
  gtkIndice : Nat
  gtkRsc : List UInt8
  gtkPronta : Bool
deriving DecidableEq

structure WpaSupplicante extends Coppia, Gruppo where
  replay : List UInt8
  replayOk : Bool
  coppiaPronta : Bool

/-- `WPA_NIENTE` and the errors. -/
inductive Scarto where
  | niente
  | forma
  | mic
  | replay
  | nonce
  | chiave
deriving DecidableEq

inductive Esito where
  | scarto (e : Scarto)
  | rispondi
  | coppia
  | gruppo
deriving DecidableEq

def wpaCifrarioTkip : Nat := 2

def gtkMax : Nat := 32

def eapolTesta : Nat := 4
def eapolMax : Nat := 512

def eapolKiCoppia : Nat := 0x0008
def eapolKiIndice : Nat := 0x0030
def eapolKiAck : Nat := 0x0080
def eapolKiMic : Nat := 0x0100
def eapolKiSicuro : Nat := 0x0200
def eapolKiCifrati : Nat := 0x1000

def kDescr : Nat := 4
def kInfo : Nat := 5
def kLung : Nat := 7
def kReplay : Nat := 9
def kNonce : Nat := 17
def kIv : Nat := 49
def kRsc : Nat := 65
def kMic : Nat := 81
def kDlung : Nat := 97
def kDati : Nat := 99

section Code

variable (K : Primitive)

def wpaPrf (k etichetta dati : List UInt8) (n : Nat) : List UInt8 :=
  if 256 < etichetta.length + 1 + dati.length + 1 then replicate n 0
  else ((range ((n + 19) / 20)).flatMap fun i =>
    K.hmacSha1 k (etichetta ++ 0 :: dati ++ [UInt8.ofNat i])).take n

/-- "Pairwise key expansion". -/
def etichetta : List UInt8 :=
  [80, 97, 105, 114, 119, 105, 115, 101, 32, 107, 101, 121, 32, 101, 120, 112, 97, 110, 115, 105,
    111, 110]

def wpaPtk (pmk aa spa anonce snonce : List UInt8) (cifrario : Nat) : WpaPtk :=
  let n := if cifrario = wpaCifrarioTkip then 64 else 48
  let d := (if aa < spa then aa ++ spa else spa ++ aa) ++
    if anonce < snonce then anonce ++ snonce else snonce ++ anonce
  let k := wpaPrf K pmk etichetta d n
  { kck := k.take 16, kek := (k.drop 16).take 16, tk := k.drop 32 }

def eapolMic (versione : Nat) (kck frame : List UInt8) : List UInt8 :=
  if versione = 1 then K.hmacMd5 kck frame else (K.hmacSha1 kck frame).take 16

def micGiusto (kck : List UInt8) (versione : Nat) (frame : Buffer) (n : Nat) : Bool :=
  n ≤ eapolMax ∧ eapolMic K versione kck (segment frame 0 kMic ++ replicate 16 0 ++
    segment frame (kMic + 16) (n - (kMic + 16))) = segment frame kMic 16

def metti16 (v : Nat) : List UInt8 := [UInt8.ofNat (v / 256), UInt8.ofNat v]

def risposta (s : Coppia) (frame : Buffer) (info : Nat) (nonce dati : List UInt8) : List UInt8 :=
  let prima := [if 2 ≤ frame 0 then frame 0 else 1, 3] ++
    metti16 (kDati + dati.length - eapolTesta) ++ [frame kDescr] ++ metti16 info ++
    (if s.rsn then [0, 0] else segment frame kLung 2) ++ segment frame kReplay 8 ++
    (nonce ++ replicate (32 - nonce.length) 0) ++ replicate 32 0
  let dopo := metti16 dati.length ++ dati
  prima ++ eapolMic K (info % 8) s.ptk.kck (prima ++ replicate 16 0 ++ dopo) ++ dopo

def datiInChiaro (s : Coppia) (versione : Nat) (frame : Buffer) (n : Nat) : Option (List UInt8) :=
  if versione = 1 then some (K.rc4 (segment frame kIv 16 ++ s.ptk.kek) (segment frame kDati n))
  else K.aesUnwrap s.ptk.kek (segment frame kDati n)

/-- The loop of `cerca_gtk`: what follows the length of the first KDE with a group key. -/
def kdeGtk : Nat → List UInt8 → Option (List UInt8)
  | giri + 1, t :: l :: d =>
    if t = 0xdd ∧ l = 0 then none
    else if d.length < l.toNat then none
    else if t = 0xdd ∧ 6 + 16 ≤ l ∧ d.take 4 = [0x00, 0x0f, 0xac, 1] then some (d.take l.toNat)
    else kdeGtk giri (d.drop l.toNat)
  | _, _ => none

def cercaGtk (g : Gruppo) (d : List UInt8) : Bool × Gruppo :=
  match kdeGtk d.length d with
  | none => (false, g)
  | some k =>
    let n := k.length - 6
    if gtkMax < n then (false, { g with gtkN := n })
    else
      (true, { g with
        gtkN := n
        gtkIndice := (k.getD 4 0).toNat % 4
        gtk := k.drop 6 ++ g.gtk.drop n
        gtkPronta := true })

def wpaInizia (pmk aa spa : List UInt8) (rsn : Bool) (cifrario : Nat) (ie snonce : List UInt8) :
    WpaSupplicante where
  pmk := pmk
  aa := aa
  spa := spa
  anonce := replicate 32 0
  snonce := snonce
  rsn := rsn
  cifrario := cifrario
  ie := ie.take 64
  ptk := { kck := replicate 16 0, kek := replicate 16 0, tk := [] }
  ptkOk := false
  gtk := replicate gtkMax 0
  gtkN := 0
  gtkIndice := 0
  gtkRsc := replicate 8 0
  gtkPronta := false
  replay := replicate 8 0
  replayOk := false
  coppiaPronta := false

variable (s : WpaSupplicante)

variable (frame : Buffer)

/-- Message 1 of 4. -/
def primo (versione : Nat) : Esito × WpaSupplicante × List UInt8 :=
  let anonce := segment frame kNonce 32
  let s := { s with
    anonce := anonce, ptk := wpaPtk K s.pmk s.aa s.spa anonce s.snonce s.cifrario, ptkOk := true }
  (.rispondi, s,
    risposta K s.toCoppia frame (versione ||| eapolKiCoppia ||| eapolKiMic) s.snonce s.ie)

/-- Message 3 of 4. -/
def terzo (info versione dlung : Nat) : Esito × WpaSupplicante × List UInt8 :=
  if segment frame kNonce 32 ≠ s.anonce then (.scarto .nonce, s, [])
  else
    let s := { s with replay := segment frame kReplay 8, replayOk := true }
    let fine := fun g : Gruppo =>
      (Esito.coppia, { s with toGruppo := g, coppiaPronta := true },
        risposta K s.toCoppia frame (versione ||| eapolKiCoppia ||| eapolKiMic |||
          if s.rsn then eapolKiSicuro else 0) [] [])
    if s.rsn ∧ info &&& eapolKiCifrati ≠ 0 ∧ dlung ≠ 0 then
      match datiInChiaro K s.toCoppia versione frame dlung with
      | none => (.scarto .chiave, s, [])
      | some chiaro =>
        let r := cercaGtk s.toGruppo chiaro
        fine (if r.1 then { r.2 with gtkRsc := segment frame kRsc 8 } else r.2)
    else fine s.toGruppo

/-- Message 1 of 2 of the group. -/
def gruppo (s : WpaSupplicante) (frame : Buffer) (info versione dlung : Nat) :
    Esito × WpaSupplicante × List UInt8 :=
  let s := { s with replay := segment frame kReplay 8, replayOk := true }
  let fine := fun g : Gruppo =>
    (Esito.gruppo, { s with toGruppo := { g with gtkRsc := segment frame kRsc 8 } },
      risposta K s.toCoppia frame (versione ||| eapolKiMic ||| eapolKiSicuro |||
        if s.rsn then 0 else info &&& eapolKiIndice) [] [])
  match datiInChiaro K s.toCoppia versione frame dlung with
  | none => (.scarto .chiave, s, [])
  | some chiaro =>
    if s.rsn then
      let r := cercaGtk s.toGruppo chiaro
      if r.1 then fine r.2 else (.scarto .chiave, { s with toGruppo := r.2 }, [])
    else
      let l := be16 frame kLung
      if l = 0 ∨ gtkMax < l ∨ chiaro.length < l then (.scarto .chiave, s, [])
      else
        fine { s.toGruppo with
          gtk := chiaro.take l ++ s.gtk.drop l
          gtkN := l
          gtkIndice := (info &&& eapolKiIndice) / 16
          gtkPronta := true }

def descrittore (rsn : Bool) : UInt8 := if rsn then 2 else 254

/-- The tests before a message is looked at: for every frame with a MIC, the MIC and then the
replay counter. -/
def controlla (n : Nat) : Option Scarto :=
  let lunga := eapolTesta + be16 frame 2
  let info := be16 frame kInfo
  let firmata := info &&& eapolKiMic ≠ 0
  if n < kDati ∨ eapolMax < n ∨ frame 1 ≠ 3 then some .forma
  else if n < lunga then some .forma
  else if frame kDescr ≠ descrittore s.rsn then some .niente
  else if info % 8 ≠ 1 ∧ info % 8 ≠ 2 then some .forma
  else if lunga < kDati + be16 frame kDlung then some .forma
  else if info &&& eapolKiAck = 0 then some .niente
  else if firmata ∧ s.ptkOk = false then some .forma
  else if firmata ∧ micGiusto K s.ptk.kck (info % 8) frame lunga = false then some .mic
  else if firmata ∧ s.replayOk ∧ ¬s.replay < segment frame kReplay 8 then some .replay
  else none

def wpaRicevi (n : Nat) : Esito × WpaSupplicante × List UInt8 :=
  let info := be16 frame kInfo
  let versione := info % 8
  let dlung := be16 frame kDlung
  match controlla K s frame n with
  | some e => (.scarto e, s, [])
  | none =>
    if info &&& eapolKiCoppia ≠ 0 ∧ info &&& eapolKiMic = 0 then primo K s frame versione
    else if info &&& eapolKiCoppia ≠ 0 then terzo K s frame info versione dlung
    else if info &&& eapolKiMic = 0 ∨ dlung = 0 then (.scarto .forma, s, [])
    else gruppo K s frame info versione dlung

end Code

/-! ## What a frame may do -/

/-- The frame has a MIC, and it is right under the key of the PMK, the addresses and the nonces. -/
def Firmata (K : Primitive) (s : WpaSupplicante) (frame : Buffer) : Prop :=
  s.ptkOk = true ∧ be16 frame kInfo &&& eapolKiMic ≠ 0 ∧
    micGiusto K (wpaPtk K s.pmk s.aa s.spa s.anonce s.snonce s.cifrario).kck (be16 frame kInfo % 8)
      frame (eapolTesta + be16 frame 2) = true

def contatore (frame : Buffer) : Nat := bigEndian (segment frame kReplay 8)

/-- The supplicant, and the counters of the frames that gave a key. -/
structure Corsa where
  s : WpaSupplicante
  accettati : List Nat

def Iniziale (c : Corsa) : Prop :=
  c.accettati = [] ∧ ∃ pmk aa spa rsn cifrario ie snonce,
    c.s = wpaInizia pmk aa spa rsn cifrario ie snonce

def passo (K : Primitive) (c : Corsa) (e : Buffer × Nat) : Corsa :=
  let r := wpaRicevi K c.s e.1 e.2
  { s := r.2.1
    accettati :=
      if r.1 = .coppia ∨ r.1 = .gruppo then c.accettati ++ [contatore e.1] else c.accettati }

/-- Once the pairwise key is handed over, an unsigned first message has the old nonce; and the
key data have no group key longer than its buffer. -/
def Regolare (K : Primitive) (s : WpaSupplicante) (frame : Buffer) : Prop :=
  (s.coppiaPronta = true → be16 frame kInfo &&& eapolKiMic = 0 →
    be16 frame kInfo &&& eapolKiCoppia ≠ 0 → segment frame kNonce 32 = s.anonce) ∧
  ∀ chiaro k,
    datiInChiaro K s.toCoppia (be16 frame kInfo % 8) frame (be16 frame kDlung) = some chiaro →
    kdeGtk chiaro.length chiaro = some k → k.length ≤ 6 + gtkMax

/-- What a frame can do to the keys. -/
structure Protetta (K : Primitive) (c : Corsa) (frame : Buffer)
    (r : Esito × WpaSupplicante × List UInt8) :
    Prop where
  firmata : r.1 = .coppia ∨ r.1 = .gruppo ∨ r.2.1.toGruppo ≠ c.s.toGruppo →
    Firmata K c.s frame ∧ ∀ v ∈ c.accettati, v < contatore frame
  chiavi : c.s.coppiaPronta = true → ¬Firmata K c.s frame → r.2.1.ptk = c.s.ptk ∧
    r.2.1.toGruppo = c.s.toGruppo ∧ r.2.1.replay = c.s.replay ∧ r.2.1.replayOk = c.s.replayOk
  corta : r.2.1.gtkN ≤ gtkMax

section Steps

variable {K : Primitive} {s : WpaSupplicante} {frame : Buffer} {n : Nat}

/-- All that a frame can do: nothing, the answer to a first message, or what a signed and fresh
frame does. -/
inductive Ricevuta (K : Primitive) (s : WpaSupplicante) (frame : Buffer) :
    Esito × WpaSupplicante × List UInt8 → Prop where
  | ferma (e : Scarto) : Ricevuta K s frame (.scarto e, s, [])
  | prima (unsigned : be16 frame kInfo &&& eapolKiMic = 0)
      (pair : be16 frame kInfo &&& eapolKiCoppia ≠ 0) :
      Ricevuta K s frame (primo K s frame (be16 frame kInfo % 8))
  | firmata {e : Esito} {g : Gruppo} {pronta : Bool} {out : List UInt8} (derived : s.ptkOk = true)
      (signed : be16 frame kInfo &&& eapolKiMic ≠ 0)
      (right : micGiusto K s.ptk.kck (be16 frame kInfo % 8) frame
        (eapolTesta + be16 frame 2) = true)
      (fresh : s.replayOk = true → s.replay < segment frame kReplay 8)
      (short : Regolare K s frame → s.gtkN ≤ gtkMax → g.gtkN ≤ gtkMax) :
      Ricevuta K s frame (e, { s with
        toGruppo := g, replay := segment frame kReplay 8, replayOk := true,
        coppiaPronta := pronta }, out)

theorem cercaGtk_corta {g : Gruppo} {d : List UInt8} (fits : g.gtkN ≤ gtkMax)
    (short : ∀ k, kdeGtk d.length d = some k → k.length ≤ 6 + gtkMax) :
    (cercaGtk g d).2.gtkN ≤ gtkMax := by
  rw [cercaGtk]
  split
  · exact fits
  rename_i k found
  have limit := short k found
  dsimp only
  split
  · exact Nat.sub_le_iff_le_add'.mpr limit
  · exact Nat.sub_le_iff_le_add'.mpr limit

theorem controlla_none (good : controlla K s frame n = none)
    (signed : be16 frame kInfo &&& eapolKiMic ≠ 0) : s.ptkOk = true ∧
      micGiusto K s.ptk.kck (be16 frame kInfo % 8) frame (eapolTesta + be16 frame 2) = true ∧
      (s.replayOk = true → s.replay < segment frame kReplay 8) := by
  rw [controlla] at good
  split_ifs at good with _ _ _ _ _ _ underived wrong old
  refine ⟨Bool.eq_true_of_not_eq_false fun no => underived ⟨signed, no⟩,
    Bool.eq_true_of_not_eq_false fun no => wrong ⟨signed, no⟩, ?_⟩
  exact fun used => not_not.mp fun late => old ⟨signed, used, late⟩

theorem wpaRicevi_ricevuta : Ricevuta K s frame (wpaRicevi K s frame n) := by
  rw [wpaRicevi]
  cases checked : controlla K s frame n with
  | some e => exact .ferma e
  | none =>
    have taken : ∀ {e : Esito} {g : Gruppo} {pronta : Bool} {out : List UInt8},
        be16 frame kInfo &&& eapolKiMic ≠ 0 →
        (Regolare K s frame → s.gtkN ≤ gtkMax → g.gtkN ≤ gtkMax) → Ricevuta K s frame (e, { s with
          toGruppo := g, replay := segment frame kReplay 8, replayOk := true,
          coppiaPronta := pronta }, out) := by
      intro e g pronta out signed short
      obtain ⟨derived, right, fresh⟩ := controlla_none checked signed
      exact .firmata derived signed right fresh short
    dsimp only
    split
    · next fst => exact .prima fst.2 fst.1
    rename_i notFirst
    split
    · next pair =>
      have signed := fun absent => notFirst ⟨pair, absent⟩
      rw [terzo]
      split
      · exact .ferma .nonce
      dsimp only
      split
      · split
        · exact taken signed fun _ fits => fits
        rename_i chiaro found
        refine taken signed fun regular fits => ?_
        have limit := cercaGtk_corta fits fun k => regular.2 chiaro k found
        split
        · exact limit
        · exact limit
      · exact taken signed fun _ fits => fits
    split
    · exact .ferma .forma
    rename_i good
    have signed := (not_or.mp good).1
    rw [gruppo]
    dsimp only
    split
    · exact taken signed fun _ fits => fits
    rename_i chiaro found
    split
    · have limit : Regolare K s frame → s.gtkN ≤ gtkMax →
          (cercaGtk s.toGruppo chiaro).2.gtkN ≤ gtkMax :=
        fun regular fits => cercaGtk_corta fits fun k => regular.2 chiaro k found
      split
      · exact taken signed limit
      · exact taken signed limit
    split
    · exact taken signed fun _ fits => fits
    · next fits =>
      exact taken signed fun _ _ => Nat.le_of_not_lt (not_or.mp (not_or.mp fits).2).1

/-- The invariant of the runs. -/
structure Sana (K : Primitive) (c : Corsa) : Prop where
  derivata : c.s.ptkOk = true →
    c.s.ptk = wpaPtk K c.s.pmk c.s.aa c.s.spa c.s.anonce c.s.snonce c.s.cifrario
  pronta : c.s.coppiaPronta = true → c.s.ptkOk = true
  corta : c.s.gtkN ≤ gtkMax
  otto : c.s.replay.length = 8
  vecchi : ∀ v ∈ c.accettati, c.s.replayOk = true ∧ v ≤ bigEndian c.s.replay

variable {c : Corsa}

theorem Iniziale.sana (start : Iniziale c) : Sana K c := by
  obtain ⟨nothing, pmk, aa, spa, rsn, cifrario, ie, snonce, isS⟩ := start
  refine ⟨?_, ?_, ?_, ?_, ?_⟩
  · rw [isS]
    exact fun derived => absurd derived Bool.false_ne_true
  · rw [isS]
    exact fun ready => absurd ready Bool.false_ne_true
  · rw [isS]
    exact Nat.zero_le _
  · rw [isS]
    exact length_replicate
  · rw [nothing]
    exact fun v mem => absurd mem not_mem_nil

theorem Sana.ricevuta {r : Esito × WpaSupplicante × List UInt8} (sana : Sana K c)
    (regular : Regolare K c.s frame) (ricevuta : Ricevuta K c.s frame r) :
    Protetta K c frame r ∧ Sana K ⟨r.2.1, if r.1 = .coppia ∨ r.1 = .gruppo then
      c.accettati ++ [contatore frame] else c.accettati⟩ := by
  cases ricevuta with
  | ferma e =>
    refine ⟨⟨?_, fun _ _ => ⟨rfl, rfl, rfl, rfl⟩, sana.corta⟩, sana⟩
    rintro (isCoppia | isGruppo | changed)
    · cases isCoppia
    · cases isGruppo
    · exact absurd rfl changed
  | prima unsigned pair =>
    refine ⟨⟨?_, ?_, sana.corta⟩, fun _ => rfl, fun _ => rfl, sana.corta, sana.otto, sana.vecchi⟩
    · rintro (isCoppia | isGruppo | changed)
      · cases isCoppia
      · cases isGruppo
      · exact absurd rfl changed
    · intro ready _
      refine ⟨?_, rfl, rfl, rfl⟩
      rw [sana.derivata (sana.pronta ready), ← regular.1 ready unsigned pair]
      rfl
  | firmata derived signed right fresh short =>
    rw [sana.derivata derived] at right
    have newer : ∀ v ∈ c.accettati, v < contatore frame := by
      intro v mem
      obtain ⟨used, old⟩ := sana.vecchi v mem
      exact Nat.lt_of_le_of_lt old
        (bigEndian_lt_bigEndian (sana.otto.trans (length_segment ..).symm) (fresh used))
    have fits := short regular sana.corta
    refine ⟨⟨fun _ => ⟨⟨derived, signed, right⟩, newer⟩,
      fun _ unsigned => absurd ⟨derived, signed, right⟩ unsigned, fits⟩,
      sana.derivata, fun _ => derived, fits, length_segment .., fun v mem => ⟨rfl, ?_⟩⟩
    have within : v ∈ c.accettati ++ [contatore frame] := by
      split at mem
      · exact mem
      · exact mem_append_left _ mem
    rcases mem_append.mp within with old | new
    · exact Nat.le_of_lt (newer v old)
    · exact Nat.le_of_eq (mem_singleton.mp new)

/-- In every run of regular frames, whatever they are and however often they come. -/
theorem chiavi_protette (reached : Reached Iniziale
      (fun c e c' => Regolare K c.s e.1 ∧ c' = passo K c e) c)
    (regolare : Regolare K c.s frame) (n : Nat) : Protetta K c frame (wpaRicevi K c.s frame n) := by
  have sana : Sana K c := by
    apply reached.invariant (Sana K) fun fst start => start.sana
    rintro pre e after sana ⟨regular, isAfter⟩
    rw [isAfter]
    exact (sana.ricevuta regular wpaRicevi_ricevuta).2
  exact (sana.ricevuta regolare wpaRicevi_ricevuta).1

end Steps

/-- A MIC of zeros is right, RC4 changes nothing and the key is some bytes of the nonces. -/
def primitiveProva : Primitive where
  hmacMd5 := fun _ _ => replicate 16 0
  hmacSha1 := fun _ m => if m.length = 100 then m.drop 80 else replicate 20 0
  rc4 := fun _ d => d
  aesUnwrap := fun _ _ => none

def corsaProva : Corsa where
  s := wpaInizia (replicate 32 0) (replicate 6 0) (replicate 6 1) true 1 [] (replicate 32 0)
  accettati := []

def trama (info : List UInt8) (contatore nonce : UInt8) (dati : List UInt8) : Buffer := fun i =>
  ([1, 3] ++ metti16 (95 + dati.length) ++ [2] ++ info ++ replicate 9 0 ++ [contatore] ++
    replicate 32 nonce ++ replicate 48 0 ++ metti16 dati.length ++ dati).getD i 0

theorem corsaProva_iniziale : Iniziale corsaProva := ⟨rfl, _, _, _, _, _, _, _, rfl⟩

instance (K : Primitive) (s : WpaSupplicante) (frame : Buffer) : Decidable (Regolare K s frame) :=
  decidable_of_iff ((s.coppiaPronta = true → be16 frame kInfo &&& eapolKiMic = 0 →
      be16 frame kInfo &&& eapolKiCoppia ≠ 0 → segment frame kNonce 32 = s.anonce) ∧
    ∀ chiaro ∈ datiInChiaro K s.toCoppia (be16 frame kInfo % 8) frame (be16 frame kDlung),
      ∀ k ∈ kdeGtk chiaro.length chiaro, k.length ≤ 6 + gtkMax)
    (and_congr_right' (forall_congr' fun _ => forall_comm))

/-- The key data with a group key of `n` bytes. -/
def datiGruppo (n : Nat) : List UInt8 :=
  [0xdd, UInt8.ofNat (n + 6), 0x00, 0x0f, 0xac, 1, 1, 0] ++ replicate n 7

/-- A first message and a signed third one, with a group key. -/
def trameProva : List (Buffer × Nat) :=
  [(trama [0, 0x8A] 0 1 [], 99), (trama [0x13, 0xC9] 1 1 (datiGruppo 16), 123)]

def corsaScambio : Corsa := trameProva.foldl (passo primitiveProva) corsaProva

/-- After the handshake a signed message gives another group key, above the counter of the
third message; the same message without its MIC gives none. -/
theorem chiavi_protette_scambio :
    corsaScambio.accettati = [1] ∧ corsaScambio.s.coppiaPronta = true ∧
    (wpaRicevi primitiveProva corsaScambio.s
      (trama [0x11, 0x81] 2 1 (datiGruppo 32)) 139).1 = .gruppo ∧
    ¬Firmata primitiveProva corsaScambio.s (trama [0x10, 0x81] 2 1 (datiGruppo 32)) ∧
    ∀ info ∈ [[0x11, 0x81], [0x10, 0x81]],
      Protetta primitiveProva corsaScambio (trama info 2 1 (datiGruppo 32))
        (wpaRicevi primitiveProva corsaScambio.s (trama info 2 1 (datiGruppo 32)) 139) := by
  have admitted : Admitted (passo primitiveProva) (fun c e => Regolare primitiveProva c.s e.1)
      corsaProva trameProva := ⟨by decide +kernel, by decide +kernel, trivial⟩
  have regular : ∀ info ∈ [[0x11, 0x81], [0x10, 0x81]],
      Regolare primitiveProva corsaScambio.s (trama info 2 1 (datiGruppo 32)) := by
    decide +kernel
  refine ⟨by decide +kernel, by decide +kernel, by decide +kernel,
    fun signed => signed.2.1 (by decide), fun info member => ?_⟩
  exact chiavi_protette ((Reached.start corsaProva_iniziale).foldl trameProva admitted)
    (regular info member) 139

/-- After a handshake a first message with another nonce, which has no MIC, replaces the pairwise
key; and a group key of 33 bytes, refused, leaves its length. -/
theorem chiavi_sostituite :
    ∃ K c frame frame', Reached Iniziale (fun c e c' => c' = passo K c e) c ∧
    c.s.coppiaPronta = true ∧ ¬Firmata K c.s frame ∧ (wpaRicevi K c.s frame 99).2.1.ptk ≠ c.s.ptk ∧
    gtkMax < (wpaRicevi K c.s frame' 140).2.1.gtkN := by
  refine ⟨primitiveProva, _, trama [0, 0x8A] 0 2 [],
    trama [1, 0x81] 2 1 ([0xdd, 39, 0x00, 0x0f, 0xac, 1] ++ replicate 35 0),
    (Reached.start corsaProva_iniziale).foldlAll
      [(trama [0, 0x8A] 0 1 [], 99), (trama [1, 0x8A] 1 1 [], 99)], ?_, ?_, ?_, ?_⟩
  · decide +kernel
  · exact fun firmata => firmata.2.1 (by decide)
  · decide +kernel
  · decide +kernel

end ExOs.Exwifi
