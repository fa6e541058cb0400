import Mathlib.Data.Int.Init
import Mathlib.Tactic.IntervalCases

/-!
# The calendar of the C library

`gmtime` and `mktime` of `lib/libc.c`, over the two conversions between a date and its day
number.  A `time_t` has 64 bits and a `long` has 32: a result out of range is taken back into
it, the way the i386 registers do.
-/

namespace ExOs.Libc

/-- What a `long` keeps of an integer. -/
def lungo (x : Int) : Int := (x + 2 ^ 31) % 2 ^ 32 - 2 ^ 31

/-- The integers a `long` can hold. -/
def InLungo (x : Int) : Prop := -2 ^ 31 ≤ x ∧ x < 2 ^ 31

instance (x : Int) : Decidable (InLungo x) := inferInstanceAs (Decidable (_ ∧ _))

/-- `giorni_da_civile`: the days from 1 January 1970 to a date, with months from 1. -/
def giorniDaCivile (anno : Int) (mese giorno : Nat) : Int :=
  let anno := lungo (anno - if mese ≤ 2 then 1 else 0)
  let era := (if 0 ≤ anno then anno else lungo (anno - 399)).tdiv 400
  let add := ((anno - era * 400) % 2 ^ 32).toNat
  let gda := (153 * (if 2 < mese then mese - 3 else mese + 9) + 2) / 5 + giorno - 1
  -- the wraps of the products and of `gde` are the one wrap of the sum
  lungo (era * 146097 + (add * 365 + add / 4 - add / 100 + gda : Nat) - 719468)

/-- `civile_da_giorni`: year, month and day of a day number.  `gmtime`, its one caller, stays
within 24856 days of 1970, where no sum wraps. -/
def civileDaGiorni (giorni : Int) : Int × Nat × Nat :=
  let g := giorni + 719468
  let era := (if 0 ≤ g then g else g - 146096).tdiv 146097
  let gde := (g - era * 146097).toNat
  let add := (gde - gde / 1460 + gde / 36524 - gde / 146096) / 365
  let gda := gde - (365 * add + add / 4 - add / 100)
  let mp := (5 * gda + 2) / 153
  let d := gda - (153 * mp + 2) / 5 + 1
  let m := if mp < 10 then mp + 3 else mp - 9
  (add + era * 400 + (if m ≤ 2 then 1 else 0), m, d)

/-- The fields of `struct tm` that `gmtime` fills. -/
structure Tm where
  sec : Int
  min : Int
  hour : Int
  mday : Int
  mon : Int
  year : Int
  wday : Int
  yday : Int
  isdst : Int
  deriving DecidableEq, Repr

/-- `gmtime`: the instant is first cut to a `long`. -/
def gmtime (t : Int) : Tm :=
  let secondi := lungo t
  let negativo := secondi.tmod 86400 < 0
  let giorni := secondi.tdiv 86400 - if negativo then 1 else 0
  let resto := secondi.tmod 86400 + if negativo then 86400 else 0
  let (anno, mese, giorno) := civileDaGiorni giorni
  let wday := (giorni + 4).tmod 7
  { sec := resto.tmod 60
    min := (resto.tdiv 60).tmod 60
    hour := resto.tdiv 3600
    mday := giorno
    mon := mese - 1
    year := anno - 1900
    wday := wday + if wday < 0 then 7 else 0
    yday := giorni - giorniDaCivile anno 1 1
    isdst := 0 }

/-- `mktime`: the instant it returns and the fields it leaves. -/
def mktime (tm : Tm) : Int × Tm :=
  let mese := tm.mon.tmod 12
  let anno := lungo (tm.year + 1900 + tm.mon.tdiv 12 - if mese < 0 then 1 else 0)
  let mese := mese + if mese < 0 then 12 else 0
  let giorni := lungo (giorniDaCivile anno (mese.toNat + 1) 1 + tm.mday - 1)
  let secondi := lungo (giorni * 86400 + tm.hour * 3600 + tm.min * 60 + tm.sec)
  (secondi, gmtime secondi)

/-! ## The proleptic Gregorian calendar -/

/-- The leap years. -/
def Bisestile (anno : Int) : Prop := anno % 4 = 0 ∧ (anno % 100 ≠ 0 ∨ anno % 400 = 0)

instance (anno : Int) : Decidable (Bisestile anno) := inferInstanceAs (Decidable (_ ∧ _))

/-- The days of a month, numbered from 0. -/
def durata (anno : Int) : Nat → Int
  | 1 => if Bisestile anno then 29 else 28
  | 3 | 5 | 8 | 10 => 30
  | _ => 31

/-- The days of the year before a month. -/
def primoDelMese (anno : Int) : Nat → Int
  | 0 => 0
  | mese + 1 => primoDelMese anno mese + durata anno mese

/-- The days from 1 January 1970 to 1 January of a year. -/
def primoGennaio (anno : Int) : Int :=
  365 * (anno - 1970) + (anno - 1) / 4 - (anno - 1) / 100 + (anno - 1) / 400 - 477

/-- The instant the fields denote, whatever their range: months are carried into years first,
then days, hours, minutes and seconds are added. -/
def Tm.istante (tm : Tm) : Int :=
  let anno := tm.year + 1900 + tm.mon / 12
  (primoGennaio anno + primoDelMese anno (tm.mon % 12).toNat + tm.mday - 1) * 86400
    + tm.hour * 3600 + tm.min * 60 + tm.sec

/-- The fields are the date and time of an instant, in their ranges, with its day of the week
(1 January 1970 is a Thursday) and of the year. -/
structure Tm.Di (tm : Tm) (t : Int) : Prop where
  istante : tm.istante = t
  mese : 0 ≤ tm.mon ∧ tm.mon < 12
  giorno : 1 ≤ tm.mday ∧ tm.mday ≤ durata (tm.year + 1900) tm.mon.toNat
  ora : (0 ≤ tm.hour ∧ tm.hour < 24) ∧ (0 ≤ tm.min ∧ tm.min < 60) ∧ 0 ≤ tm.sec ∧ tm.sec < 60
  settimana : tm.wday = (t / 86400 + 4) % 7
  anno : tm.yday = primoDelMese (tm.year + 1900) tm.mon.toNat + tm.mday - 1
  legale : tm.isdst = 0

variable (anno : Int)

/-- The first of a month of the year that begins in March, as both conversions count it. -/
theorem primo_marzo (mp : Nat) (mese : mp < 12) : let dopo := anno + if mp < 10 then 0 else 1
    primoGennaio dopo + primoDelMese dopo (if mp < 10 then mp + 2 else mp - 10)
      = 365 * anno + anno / 4 - anno / 100 + anno / 400 - 719468 + ((153 * mp + 2) / 5 : Nat) := by
  interval_cases mp <;> simp [primoGennaio, primoDelMese, durata, Bisestile] <;> try split
  all_goals omega

theorem durata_marzo (mp : Nat) (mese : mp < 11) :
    durata anno ((if mp < 10 then mp + 3 else mp - 9) - 1)
      = ((153 * (mp + 1) + 2) / 5 - (153 * mp + 2) / 5 : Nat) := by
  interval_cases mp <;> rfl

/-! ## The two conversions -/

/-- The year of the era that holds a day of the era. -/
theorem anno_dell_era (gde add : Nat) (lt : gde < 146097)
    (isAdd : add = (gde - gde / 1460 + gde / 36524 - gde / 146096) / 365) :
    365 * add + add / 4 - add / 100 ≤ gde ∧ add ≤ 399 ∧
      gde ≤ (365 * add + add / 4 - add / 100 : Nat) + 336 + durata (add + 1 : Nat) 1 := by
  have secoli : gde / 36524 = 0 ∨ gde / 36524 = 1 ∨ gde / 36524 = 2 ∨ gde / 36524 = 3 ∨
      gde / 36524 = 4 := by omega
  -- the last day of the era is still in its fourth century
  have secolo : add / 100 = gde / 36524 - gde / 146096 := by
    rcases secoli with e | e | e | e | e <;> omega
  have sopra : gde / 1460 ≤ (add + 1) / 4 := by
    rcases secoli with e | e | e | e | e <;> rw [e] at isAdd secolo <;> omega
  have seguente : (add + 1) / 100 = add / 100 ∨ add = 100 * (add / 100) + 99 := by omega
  have prossimo : gde < 365 * (add + 1) + (add + 1) / 4 - (add + 1) / 100 + (add + 1) / 400 := by
    rcases seguente with same | last
    · omega
    · rcases secoli with e | e | e | e | e <;> rw [e] at secolo <;> omega
  simp only [durata, Bisestile, ← Int.dvd_iff_emod_eq_zero, ne_eq]
  split <;> omega

theorem lungo_eq {x : Int} (fits : InLungo x) : lungo x = x := by
  unfold InLungo at fits
  unfold lungo
  omega

theorem inLungo_lungo (x : Int) : InLungo (lungo x) := by
  unfold InLungo lungo
  omega

/-- The truncating division the source corrects by hand is the Euclidean one. -/
theorem euclidea (a : Int) {b : Int} (pos : 0 < b) :
    (a.tdiv b - if a.tmod b < 0 then 1 else 0) = a / b ∧
      (a.tmod b + if a.tmod b < 0 then b else 0) = a % b := by
  have sotto := Int.emod_lt_of_pos a pos
  have sopra := Int.emod_nonneg a (by omega : b ≠ 0)
  rw [Int.tdiv_eq_ediv, Int.tmod_eq_emod, Int.sign_eq_one_of_pos pos]
  by_cases esatta : 0 ≤ a ∨ b ∣ a
  · simp only [esatta, if_true]
    omega
  · simp only [esatta, if_false]
    omega

/-- The era is the floor of its division. -/
theorem era_eq (a b c : Int) (isC : b = c + 1) (pos : 0 < b) :
    (if 0 ≤ a then a else a - c).tdiv b = a / b := by
  split
  · rw [Int.tdiv_eq_ediv_of_nonneg (by assumption)]
  · rw [show a - c = -(-a - 1 + 1 * b) by omega, Int.neg_tdiv,
      Int.tdiv_eq_ediv_of_nonneg (by omega), Int.add_mul_ediv_right _ _ (by omega)]
    exact (Int.ediv_of_neg_of_pos (by omega) pos).symm

/-- `giorni_da_civile` counts the days to the first of a month, within a `long`. -/
theorem giorniDaCivile_primo {anno : Int} {mese : Nat} (isMese : mese < 12)
    (fits : -2 ^ 31 + 400 ≤ anno ∧ anno < 2 ^ 31) :
    giorniDaCivile anno (mese + 1) 1 = lungo (primoGennaio anno + primoDelMese anno mese) := by
  have conto : ∀ (a : Int) (mp : Nat), InLungo a → InLungo (a - 399) →
      (let era := (if 0 ≤ lungo a then lungo a else lungo (lungo a - 399)).tdiv 400
      let add := ((lungo a - era * 400) % 2 ^ 32).toNat
      era * 146097 +
        (add * 365 + add / 4 - add / 100 + ((153 * mp + 2) / 5 + 1 - 1) : Nat) - 719468)
      = 365 * a + a / 4 - a / 100 + a / 400 - 719468 + ((153 * mp + 2) / 5 : Nat) := by
    intro a mp inA inEra
    rw [lungo_eq inA, lungo_eq inEra, era_eq a 400 399 rfl (by decide)]
    dsimp only
    omega
  unfold InLungo at conto
  rcases Nat.lt_or_ge mese 2 with inverno | estate
  · have marzo := primo_marzo (anno - 1) (mese + 10) (by omega)
    simp only [Nat.not_lt.mpr (Nat.le_add_left 10 mese), if_false, Int.sub_add_cancel,
      Nat.add_sub_cancel] at marzo
    unfold giorniDaCivile
    simp only [if_pos (by omega : mese + 1 ≤ 2), if_neg (by omega : ¬ 2 < mese + 1)]
    rw [marzo, ← conto _ _ (by omega) (by omega)]
  · have marzo := primo_marzo anno (mese - 2) (by omega)
    simp only [if_pos (by omega : mese - 2 < 10), Int.add_zero, Nat.sub_add_cancel estate] at marzo
    unfold giorniDaCivile
    simp only [if_neg (by omega : ¬ mese + 1 ≤ 2), if_pos (by omega : 2 < mese + 1), Int.sub_zero]
    rw [marzo, ← conto _ _ (by omega) (by omega)]
    rfl

/-- `civile_da_giorni` gives the date with that day number. -/
theorem civileDaGiorni_spec {g anno : Int} {mese giorno : Nat}
    (isDate : civileDaGiorni g = (anno, mese, giorno)) :
    (1 ≤ mese ∧ mese ≤ 12) ∧ (1 ≤ giorno ∧ giorno ≤ durata anno (mese - 1)) ∧
      primoGennaio anno + primoDelMese anno (mese - 1) + giorno - 1 = g := by
  unfold civileDaGiorni at isDate
  simp only [era_eq _ 146097 146096 rfl (by decide)] at isDate
  generalize isGde : (g + 719468 - (g + 719468) / 146097 * 146097).toNat = gde at isDate
  generalize isAdd : (gde - gde / 1460 + gde / 36524 - gde / 146096) / 365 = add at isDate
  generalize isGda : gde - (365 * add + add / 4 - add / 100) = gda at isDate
  generalize isMp : (5 * gda + 2) / 153 = mp at isDate
  obtain ⟨sotto, last, sopra⟩ := anno_dell_era gde add (by omega) isAdd.symm
  generalize isEra : (g + 719468) / 146097 = era at isDate isGde
  have quarti : (add + era * 400) / 4 = add / 4 + era * 100 := by omega
  have secoli : (add + era * 400) / 100 = add / 100 + era * 4 := by omega
  have leap : Bisestile (add + 1 : Nat) ↔ Bisestile (add + era * 400 + 1) := by
    unfold Bisestile
    omega
  simp only [durata, leap] at sopra
  have isMese : mp < 12 := by omega
  have marzo := primo_marzo (add + era * 400) mp isMese
  obtain ⟨rfl, rfl, rfl⟩ := isDate
  refine ⟨by split <;> omega, ⟨by omega, ?_⟩, ?_⟩
  · rcases Nat.lt_or_ge mp 11 with mesi | ultimo
    · rw [durata_marzo _ mp mesi]
      omega
    · obtain rfl : mp = 11 := by omega
      show _ ≤ durata (add + era * 400 + 1) 1
      simp only [durata]
      omega
  · rcases Nat.lt_or_ge mp 10 with estate | inverno
    · simp only [if_pos estate, if_neg (by omega : ¬ mp + 3 ≤ 2)] at marzo ⊢
      rw [show mp + 3 - 1 = mp + 2 by omega]
      omega
    · simp only [if_neg (Nat.not_lt.mpr inverno), if_pos (by omega : mp - 9 ≤ 2)] at marzo ⊢
      rw [show mp - 9 - 1 = mp - 10 by omega]
      omega

/-! ## The instants the library knows -/

theorem durata_le (mese : Nat) : 0 ≤ durata anno mese ∧ durata anno mese ≤ 31 := by
  unfold durata
  split <;> (try split) <;> decide

theorem primoDelMese_le (mese : Nat) :
    0 ≤ primoDelMese anno mese ∧ primoDelMese anno mese ≤ 31 * mese := by
  induction mese with
  | zero => simp [primoDelMese]
  | succ mese ih =>
    have ultimo := durata_le anno mese
    rw [primoDelMese]
    omega

/-- A day number far from the ends of a `long` belongs to a year far from them too. -/
theorem anno_fits {anno : Int} {mese : Nat} (isMese : mese < 12)
    (near : -2 ^ 32 ≤ primoGennaio anno + primoDelMese anno mese ∧
      primoGennaio anno + primoDelMese anno mese ≤ 2 ^ 32) :
    -2 ^ 31 + 400 ≤ anno ∧ anno < 2 ^ 31 := by
  have mesi := primoDelMese_le anno mese
  unfold primoGennaio at near
  omega

/-- `mktime` is right on every instant a `long` holds: the year of such an instant is small. -/
theorem mktime_eq {tm : Tm} (fits : InLungo tm.istante) (interi : InLungo tm.mday ∧
    InLungo tm.hour ∧ InLungo tm.min ∧ InLungo tm.sec) :
    mktime tm = (tm.istante, gmtime tm.istante) := by
  have isAnno : -2 ^ 31 + 400 ≤ tm.year + 1900 + tm.mon / 12 ∧
      tm.year + 1900 + tm.mon / 12 < 2 ^ 31 := by
    unfold InLungo at fits interi
    simp only [Tm.istante] at fits
    exact anno_fits (by omega : (tm.mon % 12).toNat < 12) (by omega)
  obtain ⟨anni, mesi⟩ := euclidea tm.mon (by decide : (0 : Int) < 12)
  have wraps : lungo (lungo (lungo (primoGennaio (tm.year + 1900 + tm.mon / 12) +
      primoDelMese (tm.year + 1900 + tm.mon / 12) (tm.mon % 12).toNat) + (tm.mday - 1)) * 86400
      + tm.hour * 3600 + tm.min * 60 + tm.sec) = tm.istante := by
    rw [← lungo_eq fits]
    simp only [Tm.istante, lungo]
    omega
  unfold mktime
  simp only [Int.add_sub_assoc, anni, mesi, lungo_eq (⟨by omega, isAnno.2⟩ : InLungo _),
    giorniDaCivile_primo (by omega : (tm.mon % 12).toNat < 12) isAnno, wraps]

/-- `gmtime` reads the calendar at what a `long` keeps of the instant. -/
theorem gmtime_di (t : Int) : (gmtime t).Di (lungo t) := by
  have inside := inLungo_lungo t
  unfold InLungo at inside
  obtain ⟨giorni, resto⟩ := euclidea (lungo t) (by decide : (0 : Int) < 86400)
  obtain ⟨-, settimana⟩ := euclidea (lungo t / 86400 + 4) (by decide : (0 : Int) < 7)
  rcases isDate : civileDaGiorni (lungo t / 86400) with ⟨anno, mese, giorno⟩
  obtain ⟨isMese, isGiorno, numero⟩ := civileDaGiorni_spec isDate
  have durate := durata_le anno (mese - 1)
  have isYday : giorniDaCivile anno 1 1 = primoGennaio anno := by
    have mesi := primoDelMese_le anno (mese - 1)
    have fits : -2 ^ 31 + 400 ≤ anno ∧ anno < 2 ^ 31 :=
      anno_fits (by omega : mese - 1 < 12) (by omega)
    rw [giorniDaCivile_primo (by decide : 0 < 12) fits, primoDelMese, Int.add_zero]
    exact lungo_eq ⟨by omega, by omega⟩
  unfold gmtime
  simp only [giorni, resto, isDate, settimana, isYday]
  have pos : 0 ≤ lungo t % 86400 := by omega
  rw [Int.tmod_eq_emod_of_nonneg pos, Int.tdiv_eq_ediv_of_nonneg pos,
    Int.tdiv_eq_ediv_of_nonneg pos, Int.tmod_eq_emod_of_nonneg (by omega)]
  constructor
  · simp only [Tm.istante]
    rw [show anno - 1900 + 1900 + ((mese : Int) - 1) / 12 = anno by omega,
      show (((mese : Int) - 1) % 12).toNat = mese - 1 by omega]
    omega
  all_goals simp only [Int.sub_add_cancel, show ((mese : Int) - 1).toNat = mese - 1 by omega]
  all_goals omega

/-- Dates and instants correspond exactly as far as a `long` reaches: `gmtime` gives the fields of
an instant, and `mktime` takes them back to it, when and only when a `long` holds the instant;
and `mktime` is right on fields of any size when and only when a `long` holds what they denote. -/
theorem calendario_giusto (t : Int) (tm : Tm) (interi : InLungo tm.mday ∧ InLungo tm.hour ∧
    InLungo tm.min ∧ InLungo tm.sec) :
    ((gmtime t).Di t ∧ (mktime (gmtime t)).1 = t ↔ InLungo t) ∧
      ((mktime tm).1 = tm.istante ∧ (mktime tm).2.Di tm.istante ↔ InLungo tm.istante) := by
  have preciso : ∀ t, InLungo t → (gmtime t).Di t := by
    intro t fits
    have letto := gmtime_di t
    rwa [lungo_eq fits] at letto
  refine ⟨⟨fun right => ?_, fun fits => ?_⟩, fun right => ?_, fun fits => ?_⟩
  · rw [← right.2]
    exact inLungo_lungo _
  · have letto := preciso t fits
    have giorno := durata_le ((gmtime t).year + 1900) (gmtime t).mon.toNat
    obtain ⟨ora, minuto, secondo⟩ := letto.ora
    have mese := letto.giorno
    have indietro := mktime_eq (letto.istante.symm ▸ fits) (by unfold InLungo; omega)
    exact ⟨letto, by rw [indietro, letto.istante]⟩
  · rw [← right.1]
    exact inLungo_lungo _
  · rw [mktime_eq fits interi]
    exact ⟨rfl, preciso _ fits⟩

/-- The sixtieth day of the thirteenth month of 1999, at 25 hours. -/
theorem calendario_giusto_marzo : let tm : Tm := ⟨0, 0, 25, 60, 12, 99, 0, 0, 0⟩
    InLungo tm.istante ∧ (mktime tm).1 = tm.istante ∧ (mktime tm).2.Di tm.istante :=
  have fits : InLungo (Tm.istante ⟨0, 0, 25, 60, 12, 99, 0, 0, 0⟩) := by decide
  ⟨fits, (calendario_giusto 0 _ (by decide)).2.mpr fits⟩

/-- One second after the last a `long` holds, `gmtime` is back in 1901. -/
theorem gmtime_duemila38 : ¬ (gmtime (2 ^ 31)).Di (2 ^ 31) ∧ (gmtime (2 ^ 31)).year = 1 := by
  refine ⟨fun right => absurd right.istante ?_, ?_⟩ <;> decide

end ExOs.Libc
