import Mathlib.Algebra.Ring.Nat
import Mathlib.Data.UInt
import ExOs.Library.Runs
import ExOs.Net.Ricezione

/-!
# The received stream over a run

Every byte has one place: that of stream position `j` is `rx_off + (j - L)`,
where `L` bytes have been read.  Good bytes, stretches kept ahead, a
compaction and a read all keep to it.
-/

namespace ExOs.Net

open ExOs.Library List

/-! ## Bytes in their place -/

/-- The stretch `[inizio, fine)` of the stream is in its place. -/
structure AlPosto (f : Nat → UInt8) (L : Nat) (c : Ricezione) (inizio fine : Nat) : Prop where
  primo : L ≤ inizio
  dentro : c.rxOff.toNat + (fine - L) ≤ c.rxDim.toNat
  isByte : ∀ j, inizio ≤ j → j < fine → c.byte (c.rxOff.toNat + (j - L)) = f j

/-- A kept stretch, with the positions its numbers stand for. -/
def Tenuto (isn : UInt32) (f : Nat → UInt8) (L : Nat) (c : Ricezione) (t : Tratto) : Prop :=
  ∃ inizio fine, t = { da := seqNumber isn inizio, a := seqNumber isn fine } ∧ inizio < fine ∧
    AlPosto f L c inizio fine

/-- What holds while the stretches are being absorbed. -/
structure Ordinato (isn : UInt32) (f : Nat → UInt8) (L : Nat) (c : Ricezione) : Prop where
  numero : c.rcvNxt = seqNumber isn (L + c.rxLen.toNat)
  buoni : AlPosto f L c L (L + c.rxLen.toNat)
  tenuti : ∀ t ∈ c.fs, Tenuto isn f L c t
  piccolo : c.rxDim.toNat < 2 ^ 31

/-- What holds between two calls: the stretches are ahead. -/
structure Intatto (isn : UInt32) (f : Nat → UInt8) (L : Nat) (c : Ricezione) : Prop
    extends Ordinato isn f L c where
  avanti : ∀ t ∈ c.fs, Net.avanti (t.da - c.rcvNxt) = true

section

variable {isn : UInt32} {f : Nat → UInt8} {L inizio fine : Nat} {c c' : Ricezione} {t : Tratto}
  {fs : List Tratto}

theorem Intatto.vuoto (numero : c.rcvNxt = seqNumber isn L) (noLen : c.rxLen = 0) (noFs : c.fs = [])
    (le : c.rxOff.toNat ≤ c.rxDim.toNat) (piccolo : c.rxDim.toNat < 2 ^ 31) :
    Intatto isn f L c := by
  have zero : c.rxLen.toNat = 0 := by
    rw [noLen]
    rfl
  refine ⟨⟨?_, ⟨Nat.le_refl L, by omega, fun j above below => by omega⟩, ?_, piccolo⟩, ?_⟩
  · rw [zero]
    exact numero
  · rw [noFs]
    exact forall_mem_nil _
  · rw [noFs]
    exact forall_mem_nil _

theorem avanti_iff (x : UInt32) : avanti x = true ↔ 0 < x.toNat ∧ x.toNat < 2 ^ 31 := by
  have zero : (0 : UInt32).toNat = 0 := rfl
  rw [avanti, isNegative, Bool.and_eq_true, Bool.not_eq_true', decide_eq_false_iff_not,
    decide_eq_true_iff, Ne, ← UInt32.toNat_inj]
  omega

section Written

variable {da n : Nat} {rxLen rcvNxt : UInt32} {fs : List Tratto} (since : L ≤ da)

include since

/-- Where a piece of the stream is written at its place, the bytes there before
stay what they were. -/
theorem AlPosto.memcpy (posto : AlPosto f L c inizio fine) : AlPosto f L { c with
    rx := some (Net.memcpy c.byte (c.rxOff.toNat + (da - L)) (fun i => f (da + i)) n)
    rxLen := rxLen, rcvNxt := rcvNxt, fs := fs } inizio fine := by
  refine ⟨posto.primo, posto.dentro, ?_⟩
  intro j above below
  have started := posto.primo
  change Net.memcpy c.byte (c.rxOff.toNat + (da - L)) (fun i => f (da + i)) n
    (c.rxOff.toNat + (j - L)) = f j
  rw [Net.memcpy]
  split
  · congr 1
    omega
  · exact posto.isByte j above below

theorem AlPosto.ofMemcpy (le : c.rxOff.toNat + (da + n - L) ≤ c.rxDim.toNat) :
    AlPosto f L { c with
      rx := some (Net.memcpy c.byte (c.rxOff.toNat + (da - L)) (fun i => f (da + i)) n)
      rxLen := rxLen, rcvNxt := rcvNxt, fs := fs } da (da + n) := by
  refine ⟨since, le, ?_⟩
  intro j above below
  change Net.memcpy c.byte (c.rxOff.toNat + (da - L)) (fun i => f (da + i)) n
    (c.rxOff.toNat + (j - L)) = f j
  rw [Net.memcpy, if_pos ⟨by omega, by omega⟩]
  congr 1
  omega

end Written

theorem togliTratto_subset {i : Nat} : ∀ t ∈ togliTratto fs i, t ∈ fs := by
  intro t mem
  rw [togliTratto] at mem
  cases isLast : fs.getLast? with
  | none =>
    rw [isLast] at mem
    exact mem
  | some ultimo =>
    rw [isLast] at mem
    have inSet := dropLast_subset _ mem
    rcases mem_or_eq_of_mem_set inSet with old | last
    · exact old
    · rw [last]
      exact mem_of_getLast? isLast

theorem togliTratto_length {i : Nat} : (togliTratto fs i).length = fs.length - 1 := by
  rw [togliTratto]
  cases isLast : fs.getLast? with
  | none =>
    rw [List.getLast?_eq_none_iff] at isLast
    rw [isLast]
    rfl
  | some ultimo => rw [length_dropLast, length_set]

section

variable (ordinato : Ordinato isn f L c) {giri : Nat}

include ordinato

theorem Ordinato.buono {i : Nat} (below : i < c.rxLen.toNat) :
    c.byte (c.rxOff.toNat + i) = f (L + i) := by
  have isByte := ordinato.buoni.isByte (L + i) (by omega) (by omega)
  rw [Nat.add_sub_cancel_left] at isByte
  exact isByte

theorem Ordinato.avanti_iff {j : Nat} (since : L ≤ j) (stop : j - L < 2 ^ 31) :
    Net.avanti (seqNumber isn j - c.rcvNxt) = true ↔ L + c.rxLen.toNat < j := by
  have le := ordinato.buoni.dentro
  have small := ordinato.piccolo
  have number := ordinato.numero
  rw [Net.avanti_iff, number]
  by_cases ahead : L + c.rxLen.toNat ≤ j
  · rw [seqNumber_sub ahead (by omega)]
    omega
  · rw [seqNumber_sub_back (Nat.lt_of_not_le ahead) (by omega)]
    omega

theorem Ordinato.distanza {j : Nat} (ahead : L + c.rxLen.toNat ≤ j) (stop : j - L < 2 ^ 31) :
    (seqNumber isn j - c.rcvNxt).toNat = j - (L + c.rxLen.toNat) := by
  rw [ordinato.numero]
  exact seqNumber_sub ahead (by omega)

theorem Ordinato.assorbiUno (mem : t ∈ c.fs) (i : Nat)
    (reached : Net.avanti (t.da - c.rcvNxt) = false) : Ordinato isn f L (assorbiUno c t i) := by
  obtain ⟨inizio, fine, isT, proper, posto⟩ := ordinato.tenuti t mem
  have others : ∀ {rxLen rcvNxt : UInt32}, ∀ s ∈ togliTratto c.fs i, Tenuto isn f L
      { c with rxLen := rxLen, rcvNxt := rcvNxt, fs := togliTratto c.fs i } s := by
    intro _ _ s sMember
    obtain ⟨inizio, fine, isS, proper, posto⟩ := ordinato.tenuti s (togliTratto_subset s sMember)
    exact ⟨inizio, fine, isS, proper, { posto with }⟩
  have started := posto.primo
  have le := posto.dentro
  have small := ordinato.piccolo
  have isDa : t.da = seqNumber isn inizio := by rw [isT]
  have isA : t.a = seqNumber isn fine := by rw [isT]
  rw [Net.assorbiUno]
  split
  · next more =>
    have behind : ¬L + c.rxLen.toNat < inizio := by
      rw [← ordinato.avanti_iff started (by omega), ← isDa, reached]
      exact Bool.false_ne_true
    have ahead : L + c.rxLen.toNat < fine := by
      rw [← ordinato.avanti_iff (by omega) (by omega), ← isA]
      exact more
    have distance := ordinato.distanza (Nat.le_of_lt ahead) (by omega)
    have isLen : (c.rxLen + (t.a - c.rcvNxt)).toNat = fine - L := by
      rw [UInt32.toNat_add, isA]
      omega
    refine ⟨?_, ?_, others, small⟩
    · show t.a = seqNumber isn (L + (c.rxLen + (t.a - c.rcvNxt)).toNat)
      rw [isLen, isA]
      congr 1
      omega
    · have stops : L + (fine - L) = fine := by omega
      rw [isLen, stops]
      refine ⟨Nat.le_refl L, le, ?_⟩
      -- Up to the end of the good bytes as before, from there on in the stretch.
      intro j above below
      by_cases good : j < L + c.rxLen.toNat
      · exact ordinato.buoni.isByte j above good
      · exact posto.isByte j (by omega) below
  · exact ⟨ordinato.numero, { ordinato.buoni with }, others, small⟩

omit ordinato in
theorem assorbiUno_length {i : Nat} : (assorbiUno c t i).fs.length = c.fs.length - 1 := by
  rw [assorbiUno]
  split <;> exact togliTratto_length

omit ordinato in
/-- What one stretch taken out keeps, the loop keeps; in the end all are ahead. -/
theorem assorbiGiri_induct {P : Ricezione → Prop}
    (one : ∀ {c : Ricezione} {t : Tratto} (i : Nat), t ∈ c.fs →
      Net.avanti (t.da - c.rcvNxt) = false →
      P c → P (assorbiUno c t i)) (start : P c) (enough : c.fs.length ≤ giri) :
    P (assorbiGiri giri c) ∧
      ∀ t ∈ (assorbiGiri giri c).fs, Net.avanti (t.da - (assorbiGiri giri c).rcvNxt) = true := by
  induction giri generalizing c with
  | zero =>
    rw [assorbiGiri]
    refine ⟨start, fun t mem => ?_⟩
    rw [eq_nil_of_length_eq_zero (Nat.le_zero.mp enough)] at mem
    cases mem
  | succ giri ih =>
    rw [assorbiGiri]
    cases found : c.fs[c.fs.findIdx fun t => !Net.avanti (t.da - c.rcvNxt)]? with
    | none =>
      refine ⟨start, fun t mem => ?_⟩
      have all := findIdx_eq_length.mp
        (Nat.le_antisymm findIdx_le_length (List.getElem?_eq_none_iff.mp found)) t mem
      rw [Bool.not_eq_false'] at all
      exact all
    | some t =>
      have lt := (List.getElem?_eq_some_iff.mp found).1
      have isT := (List.getElem?_eq_some_iff.mp found).2
      have reached : Net.avanti (t.da - c.rcvNxt) = false := by
        have holds := findIdx_getElem (w := lt)
        rw [isT, Bool.not_eq_true'] at holds
        exact holds
      apply ih (one _ (mem_of_getElem? found) reached start)
      rw [assorbiUno_length]
      omega

theorem Ordinato.assorbiGiri (enough : c.fs.length ≤ giri) : Intatto isn f L (assorbiGiri giri c) :=
  have absorbed := assorbiGiri_induct (P := Ordinato isn f L)
    (fun i mem reached pre => pre.assorbiUno mem i reached) ordinato enough
  ⟨absorbed.1, absorbed.2⟩

end

theorem foldl_max_le_iff (values : Tratto → UInt32) (fs : List Tratto) (est limit : UInt32) :
    fs.foldl (fun est t => if est < values t then values t else est) est ≤ limit ↔
      est ≤ limit ∧ ∀ t ∈ fs, values t ≤ limit := by
  induction fs generalizing est with
  | nil => simp
  | cons head tail ih =>
    have fst : (if est < values head then values head else est) ≤ limit ↔
        est ≤ limit ∧ values head ≤ limit := by
      split
      · next less => exact ⟨fun le => ⟨UInt32.le_trans (UInt32.le_of_lt less) le, le⟩, And.right⟩
      · next less => exact ⟨fun le => ⟨le, UInt32.le_trans (UInt32.not_lt.mp less) le⟩, And.left⟩
    rw [foldl_cons, ih, fst, forall_mem_cons, and_assoc]

theorem AlPosto.compatta (posto : AlPosto f L c inizio fine) {n : Nat} (covered : fine - L ≤ n) :
    AlPosto f L { c with
      rx := some (Net.memcpy c.byte 0 (fun i => c.byte (c.rxOff.toNat + i)) n)
      rxOff := 0 } inizio fine := by
  have started := posto.primo
  have le := posto.dentro
  refine ⟨started, ?_, ?_⟩
  · show 0 + (fine - L) ≤ c.rxDim.toNat
    omega
  · intro j above below
    show Net.memcpy c.byte 0 (fun i => c.byte (c.rxOff.toNat + i)) n (0 + (j - L)) = f j
    rw [Net.memcpy, if_pos ⟨Nat.zero_le _, by omega⟩, Nat.zero_add]
    exact posto.isByte j above below

variable {amb : Ambiente} {n : UInt32} {dati : Nat → UInt8}

theorem toNat_letti (c : Ricezione) (massimo : UInt32) :
    (letti c massimo).toNat ≤ c.rxLen.toNat := by
  rw [letti]
  split
  · next less =>
    exact Nat.le_of_lt (UInt32.lt_iff_toNat_lt.mp less)
  · rfl

section

variable (intact : Intatto isn f L c) {p : Nat}

include intact

/-- Where a kept stretch is: after the good bytes, and within reach of the numbers. -/
theorem Intatto.posizioni (mem : t ∈ c.fs) :
    ∃ inizio fine, t = { da := seqNumber isn inizio, a := seqNumber isn fine } ∧ inizio < fine ∧
      AlPosto f L c inizio fine ∧ L + c.rxLen.toNat < inizio ∧ fine - L < 2 ^ 31 := by
  obtain ⟨inizio, fine, isT, proper, posto⟩ := intact.tenuti t mem
  have started := posto.primo
  have stop := posto.dentro
  have small := intact.piccolo
  have ahead := intact.avanti t mem
  rw [isT, intact.avanti_iff started (by omega)] at ahead
  exact ⟨inizio, fine, isT, proper, posto, ahead, by omega⟩

theorem Intatto.estensione : c.rxLen.toNat ≤ (c.rxLen + estensione c).toNat ∧
      ∀ t ∈ c.fs, ∀ fine, t.a = seqNumber isn fine → fine - L < 2 ^ 31 →
        L + c.rxLen.toNat < fine → fine - L ≤ (c.rxLen + estensione c).toNat := by
  have le := intact.buoni.dentro
  have small := intact.piccolo
  obtain ⟨_, above⟩ := (foldl_max_le_iff (fun t => t.a - c.rcvNxt) c.fs 0 _).mp (UInt32.le_refl _)
  have limit : (Net.estensione c).toNat ≤ c.rxDim.toNat - c.rxOff.toNat - c.rxLen.toNat := by
    have room : (UInt32.ofNat (c.rxDim.toNat - c.rxOff.toNat - c.rxLen.toNat)).toNat =
        c.rxDim.toNat - c.rxOff.toNat - c.rxLen.toNat := by
      rw [UInt32.toNat_ofNat']
      omega
    rw [← room]
    refine (foldl_max_le_iff _ _ _ _).mpr ⟨UInt32.le_iff_toNat_le.mpr (Nat.zero_le _), ?_⟩
    intro t mem
    obtain ⟨inizio, fine, isT, proper, posto, ahead, near⟩ := intact.posizioni mem
    have stop := posto.dentro
    apply UInt32.le_iff_toNat_le.mpr
    rw [isT, intact.distanza (by omega) (by omega)]
    omega
  have noWrap : (c.rxLen + Net.estensione c).toNat = c.rxLen.toNat + (Net.estensione c).toNat := by
    rw [UInt32.toNat_add]
    omega
  refine ⟨by omega, ?_⟩
  intro t mem fine isA near beyond
  have reaches := UInt32.le_iff_toNat_le.mp (above t mem)
  rw [isA, intact.distanza (Nat.le_of_lt beyond) near] at reaches
  change _ ≤ (Net.estensione c).toNat at reaches
  omega

theorem Intatto.rxCompatta : Intatto isn f L (rxCompatta c) := by
  rw [Net.rxCompatta]
  split
  · exact intact
  obtain ⟨goodCovered, covered⟩ := intact.estensione
  refine ⟨⟨intact.numero, ?_, ?_, intact.piccolo⟩, intact.avanti⟩
  · exact intact.buoni.compatta (by omega)
  · intro t mem
    obtain ⟨inizio, fine, isT, proper, posto, ahead, near⟩ := intact.posizioni mem
    refine ⟨inizio, fine, isT, proper, posto.compatta ?_⟩
    exact covered t mem fine (by rw [isT]) near (by omega)

omit intact in
theorem rxCompatta_fields (c : Ricezione) :
    (rxCompatta c).rxOff = 0 ∧ (rxCompatta c).rxLen = c.rxLen ∧ (rxCompatta c).rxDim = c.rxDim ∧
      (rxCompatta c).rcvNxt = c.rcvNxt ∧ (rxCompatta c).fs = c.fs := by
  rw [rxCompatta]
  split
  · next atHead =>
    exact ⟨atHead, rfl, rfl, rfl, rfl⟩
  · exact ⟨rfl, rfl, rfl, rfl, rfl⟩

/-! ## The calls -/

theorem Intatto.rxCap (small : (rxCap amb c).rxDim.toNat < 2 ^ 31)
    (untaken : c.rx = none → c.rxLen = 0 ∧ c.rxOff = 0 ∧ c.fs = []) :
    Intatto isn f L (rxCap amb c) := by
  rw [Net.rxCap] at small ⊢
  by_cases absent : c.rx.isNone = true
  · rw [if_pos absent] at small ⊢
    obtain ⟨noLen, noOff, noFs⟩ := untaken (Option.isNone_iff_eq_none.mp absent)
    have numero := intact.numero
    rw [noLen] at numero
    refine Intatto.vuoto numero noLen noFs ?_ small
    rw [noOff]
    exact Nat.zero_le _
  · rw [if_neg absent]
    exact intact

omit intact in
theorem rxCap_preso (preso : c.rx.isNone = false) : rxCap amb c = c := by
  rw [rxCap, if_neg (Bool.eq_false_iff.mp preso)]

theorem Intatto.rxTieni (taken : c.rx.isNone = false) (ahead : L + c.rxLen.toNat < p)
    (near : p < L + c.rxLen.toNat + 2 ^ 31) (pos : 0 < n.toNat)
    (fits : c.rxDim.toNat + n.toNat ≤ 2 ^ 31) :
    Intatto isn f L
      (rxTieni amb c (seqNumber isn p) (seqNumber isn p - c.rcvNxt) (fun i => f (p + i)) n) := by
  have isDistance : (seqNumber isn p - c.rcvNxt).toNat = p - (L + c.rxLen.toNat) := by
    rw [intact.numero]
    exact seqNumber_sub (Nat.le_of_lt ahead) (by omega)
  have compatto := intact.rxCompatta
  obtain ⟨isOff, isLen, isDim, isRcv, isFs⟩ := rxCompatta_fields c
  rw [Net.rxTieni, rxCap_preso taken]
  generalize Net.rxCompatta c = k at compatto isOff isLen isDim isRcv isFs ⊢
  generalize seqNumber isn p - c.rcvNxt = d at isDistance ⊢
  rw [← isLen] at isDistance
  rw [← isDim] at fits
  rw [← isLen] at ahead near
  have kin := compatto.buoni.dentro
  have offZero : k.rxOff.toNat = 0 := by
    rw [isOff]
    rfl
  have place : (k.rxLen + d).toNat = k.rxOff.toNat + (p - L) := by
    rw [UInt32.toNat_add]
    omega
  have isSum : (k.rxLen + d + n).toNat = p + n.toNat - L := by
    rw [UInt32.toNat_add]
    omega
  split
  · exact compatto
  rename_i beyond
  have room : p + n.toNat - L ≤ k.rxDim.toNat := by
    rw [← isSum]
    exact UInt32.le_iff_toNat_le.mp (UInt32.not_lt.mp beyond)
  -- Whatever the list becomes, the bytes are those of the piece at its place.
  have written : ∀ fs' : List Tratto, (∀ s ∈ fs', s ∈ k.fs ∨
      s = { da := seqNumber isn p, a := seqNumber isn p + n }) →
      Intatto isn f L { k with
        rx := some (memcpy k.byte (k.rxLen + d).toNat (fun i => f (p + i)) n.toNat)
        fs := fs' } := by
    intro fs' members
    rw [place]
    have piece : AlPosto f L { k with
        rx := some (memcpy k.byte (k.rxOff.toNat + (p - L)) (fun i => f (p + i)) n.toNat)
        fs := fs' } p (p + n.toNat) :=
      AlPosto.ofMemcpy (by omega) (by omega)
    refine ⟨⟨compatto.numero, ?_, ?_, compatto.piccolo⟩, ?_⟩
    · exact compatto.buoni.memcpy (by omega)
    · intro s mem
      rcases members s mem with old | new
      · obtain ⟨inizio, fine, isS, proper, posto⟩ := compatto.tenuti s old
        exact ⟨inizio, fine, isS, proper, posto.memcpy (by omega)⟩
      · exact ⟨p, p + n.toNat, by rw [new, seqNumber_add], by omega, piece⟩
    · intro s mem
      rcases members s mem with old | new
      · exact compatto.avanti s old
      · rw [new]
        exact (compatto.avanti_iff (by omega) (by omega)).mpr ahead
  split
  · exact written k.fs fun s mem => .inl mem
  split
  · exact compatto
  apply written
  intro s mem
  rcases mem_append.mp mem with old | new
  · exact .inl old
  · exact .inr (mem_singleton.mp new)

theorem Intatto.rxInOrdine (isP : p = L + c.rxLen.toNat) (fits : c.rxDim.toNat + n.toNat ≤ 2 ^ 31) :
    Intatto isn f L (rxInOrdine c (fun i => f (p + i)) n).1 := by
  have le := intact.buoni.dentro
  have isLen : (c.rxLen + n).toNat = c.rxLen.toNat + n.toNat := by
    rw [UInt32.toNat_add]
    omega
  have isEnd : (c.rxOff + c.rxLen + n).toNat = c.rxOff.toNat + c.rxLen.toNat + n.toNat := by
    rw [UInt32.toNat_add, UInt32.toNat_add]
    omega
  rw [Net.rxInOrdine]
  split
  · exact intact
  rename_i full
  have room := UInt32.le_iff_toNat_le.mp (UInt32.not_lt.mp full)
  -- After the compaction, if there is one, the piece has its room.
  have ready : ∃ k : Ricezione, k =
      (if 0 < c.rxOff ∧ c.rxDim < c.rxOff + c.rxLen + n then Net.rxCompatta c else c) ∧
      Intatto isn f L k ∧ k.rxLen = c.rxLen ∧ k.rxDim = c.rxDim ∧
      k.rxOff.toNat + (k.rxLen.toNat + n.toNat) ≤ k.rxDim.toNat := by
    by_cases short : 0 < c.rxOff ∧ c.rxDim < c.rxOff + c.rxLen + n
    · obtain ⟨isOff, sameLen, sameDim, _, _⟩ := rxCompatta_fields c
      refine ⟨Net.rxCompatta c, by rw [if_pos short], intact.rxCompatta, sameLen, sameDim, ?_⟩
      have zero : (0 : UInt32).toNat = 0 := rfl
      rw [isOff, sameLen, sameDim]
      omega
    · refine ⟨c, by rw [if_neg short], intact, rfl, rfl, ?_⟩
      rcases not_and_or.mp short with atHead | enough
      · have isOff : c.rxOff.toNat = 0 :=
          Nat.le_zero.mp (UInt32.le_iff_toNat_le.mp (UInt32.not_lt.mp atHead))
        omega
      · have bound := UInt32.le_iff_toNat_le.mp (UInt32.not_lt.mp enough)
        omega
  obtain ⟨k, isK, kIntatto, sameLen, sameDim, kRoom⟩ := ready
  rw [← isK]
  rw [← sameLen] at isP isLen
  rw [← sameDim] at fits
  have place : (k.rxOff + k.rxLen).toNat = k.rxOff.toNat + (p - L) := by
    rw [UInt32.toNat_add]
    omega
  apply Ordinato.assorbiGiri _ (Nat.le_refl _)
  rw [place]
  have piece : AlPosto f L { k with
      rx := some (memcpy k.byte (k.rxOff.toNat + (p - L)) (fun i => f (p + i)) n.toNat)
      rxLen := k.rxLen + n
      rcvNxt := k.rcvNxt + n } p (p + n.toNat) :=
    AlPosto.ofMemcpy (by omega) (by omega)
  have kept : AlPosto f L { k with
      rx := some (memcpy k.byte (k.rxOff.toNat + (p - L)) (fun i => f (p + i)) n.toNat)
      rxLen := k.rxLen + n
      rcvNxt := k.rcvNxt + n } L (L + k.rxLen.toNat) :=
    kIntatto.buoni.memcpy (by omega)
  refine ⟨?_, ⟨Nat.le_refl L, ?_, ?_⟩, ?_, kIntatto.piccolo⟩
  · rw [kIntatto.numero, seqNumber_add, isLen, Nat.add_assoc]
  · show k.rxOff.toNat + (L + (k.rxLen + n).toNat - L) ≤ k.rxDim.toNat
    omega
  · intro j above below
    change j < L + (k.rxLen + n).toNat at below
    by_cases good : j < L + k.rxLen.toNat
    · exact kept.isByte j above good
    · exact piece.isByte j (by omega) (by omega)
  · intro s mem
    obtain ⟨inizio, fine, isS, proper, posto⟩ := kIntatto.tenuti s mem
    exact ⟨inizio, fine, isS, proper, posto.memcpy (by omega)⟩

theorem Intatto.rxDati (taken : c.rx.isNone = false) (behind : L + c.rxLen.toNat ≤ p + 2 ^ 31)
    (near : p < L + c.rxLen.toNat + 2 ^ 31) (pos : 0 < n.toNat)
    (fits : c.rxDim.toNat + n.toNat ≤ 2 ^ 31) :
    Intatto isn f L (rxDati amb c (seqNumber isn p) (fun i => f (p + i)) n).1 := by
  have sign := isNegative_seqNumber isn near behind
  rw [Net.rxDati, rxCap_preso taken]
  by_cases seen : p < L + c.rxLen.toNat
  · have difference : (seqNumber isn p - c.rcvNxt).toNat = 2 ^ 32 - (L + c.rxLen.toNat - p) := by
      rw [intact.numero]
      exact seqNumber_sub_back seen (by omega)
    have isVisti : (0 - (seqNumber isn p - c.rcvNxt)).toNat = L + c.rxLen.toNat - p := by
      have zero : (0 : UInt32).toNat = 0 := rfl
      rw [UInt32.toNat_sub]
      omega
    rw [← intact.numero] at sign
    rw [if_pos (sign.mpr seen)]
    generalize 0 - (seqNumber isn p - c.rcvNxt) = visti at isVisti ⊢
    by_cases old : n ≤ visti
    · rw [if_pos old]
      exact intact
    rw [if_neg old]
    have more : visti < n := UInt32.not_le.mp old
    have isRest : (n - visti).toNat = n.toNat - visti.toNat :=
      UInt32.toNat_sub_of_le n visti (UInt32.le_of_lt more)
    have shifted : (fun i => f (p + (visti.toNat + i))) = fun i => f (L + c.rxLen.toNat + i) := by
      funext i
      congr 1
      omega
    rw [shifted]
    exact intact.rxInOrdine rfl (by omega)
  · rw [← intact.numero] at sign
    rw [if_neg fun negative => seen (sign.mp negative)]
    split
    · next ahead =>
      have strictly : L + c.rxLen.toNat < p := by
        rcases Nat.lt_or_eq_of_le (Nat.le_of_not_lt seen) with less | equal
        · exact less
        · apply absurd _ ahead
          rw [intact.numero]
          grind
      exact intact.rxTieni taken strictly near pos fits
    · next ahead =>
      have isP : p = L + c.rxLen.toNat := by
        have distance : (seqNumber isn p - seqNumber isn (L + c.rxLen.toNat)).toNat = _ :=
          seqNumber_sub (Nat.le_of_not_lt seen) (by omega)
        rw [← intact.numero, not_not.mp ahead] at distance
        have zero : (0 : UInt32).toNat = 0 := rfl
        omega
      exact intact.rxInOrdine isP fits

theorem Intatto.leggi (massimo : UInt32) :
    Intatto isn f (L + (letti c massimo).toNat) (leggi c massimo).1 := by
  have few := toNat_letti c massimo
  have le := intact.buoni.dentro
  have small := intact.piccolo
  rw [Net.leggi]
  generalize letti c massimo = n at few ⊢
  have isLen : (c.rxLen - n).toNat = c.rxLen.toNat - n.toNat :=
    UInt32.toNat_sub_of_le c.rxLen n (UInt32.le_iff_toNat_le.mpr few)
  have isOff : (c.rxOff + n).toNat = c.rxOff.toNat + n.toNat := by
    rw [UInt32.toNat_add]
    omega
  have isPos : L + n.toNat + (c.rxLen - n).toNat = L + c.rxLen.toNat := by omega
  -- A stretch that begins after what was read keeps its place.
  have moved : ∀ {inizio fine : Nat}, L + n.toNat ≤ inizio → inizio ≤ fine →
      AlPosto f L c inizio fine →
      AlPosto f (L + n.toNat) { c with rxOff := c.rxOff + n, rxLen := c.rxLen - n } inizio
        fine := by
    intro inizio fine since proper posto
    have stop := posto.dentro
    refine ⟨since, ?_, ?_⟩
    · show (c.rxOff + n).toNat + (fine - (L + n.toNat)) ≤ c.rxDim.toNat
      omega
    · intro j above below
      have same : (c.rxOff + n).toNat + (j - (L + n.toNat)) = c.rxOff.toNat + (j - L) := by omega
      rw [same]
      exact posto.isByte j above below
  have good : AlPosto f (L + n.toNat) { c with rxOff := c.rxOff + n, rxLen := c.rxLen - n }
      (L + n.toNat) (L + n.toNat + (c.rxLen - n).toNat) := by
    apply moved (Nat.le_refl _) (Nat.le_add_right _ _)
    rw [isPos]
    exact ⟨Nat.le_add_right _ _, le, fun j above below =>
      intact.buoni.isByte j (by omega) below⟩
  have numero : c.rcvNxt = seqNumber isn (L + n.toNat + (c.rxLen - n).toNat) := by
    rw [isPos]
    exact intact.numero
  by_cases empty : (c.rxLen - n) = 0 ∧ c.fs = []
  · rw [if_pos empty]
    rw [empty.1] at numero
    exact Intatto.vuoto numero empty.1 empty.2 (Nat.zero_le _) small
  · rw [if_neg empty]
    refine ⟨⟨numero, good, ?_, small⟩, intact.avanti⟩
    intro t mem
    obtain ⟨inizio, fine, isT, proper, posto, ahead, _⟩ := intact.posizioni mem
    exact ⟨inizio, fine, isT, proper, moved (by omega) (Nat.le_of_lt proper) posto⟩

theorem Intatto.leggi_bytes (massimo : UInt32) :
    (Net.leggi c massimo).2 = (List.range (letti c massimo).toNat).map fun i => f (L + i) := by
  have few := toNat_letti c massimo
  apply map_congr_left
  intro i mem
  have below := mem_range.mp mem
  exact intact.buono (by omega)

end

theorem rxCap_taken (amb : Ambiente) (c : Ricezione) : (rxCap amb c).rx.isNone = false := by
  rw [rxCap]
  split
  · rfl
  · next absent =>
    exact Bool.eq_false_iff.mpr absent

theorem rxLen_rxCap : (rxCap amb c).rxLen = c.rxLen := by
  rw [rxCap]
  split <;> rfl

theorem rxCompatta_taken (taken : c.rx.isNone = false) : (rxCompatta c).rx.isNone = false := by
  rw [rxCompatta]
  split
  · exact taken
  · rfl

theorem assorbiGiri_rx {giri : Nat} : (assorbiGiri giri c).rx = c.rx := by
  induction giri generalizing c with
  | zero => rfl
  | succ giri ih =>
    rw [assorbiGiri]
    split
    · rfl
    · rw [ih, assorbiUno]
      split <;> rfl

theorem rxTieni_taken {seq d : UInt32}
    (taken : c.rx.isNone = false) : (rxTieni amb c seq d dati n).rx.isNone = false := by
  have compatta : (rxCompatta (rxCap amb c)).rx.isNone = false := by
    rw [rxCap_preso taken]
    exact rxCompatta_taken taken
  rw [rxTieni]
  split
  · exact compatta
  split
  · rfl
  · split
    · exact compatta
    · rfl

theorem rxInOrdine_taken (taken : c.rx.isNone = false) :
    (rxInOrdine c dati n).1.rx.isNone = false := by
  rw [rxInOrdine]
  split
  · exact taken
  · show (rxAssorbi _).rx.isNone = false
    rw [rxAssorbi, assorbiGiri_rx]
    rfl

theorem rxDati_taken (amb : Ambiente) (c : Ricezione) (seq : UInt32) (dati : Nat → UInt8)
    (n : UInt32) : (rxDati amb c seq dati n).1.rx.isNone = false := by
  have taken := rxCap_taken amb c
  rw [rxDati]
  split
  · dsimp only
    split
    · exact taken
    · exact rxInOrdine_taken taken
  · split
    · exact rxTieni_taken taken
    · exact rxInOrdine_taken taken

def Vuota (c : Ricezione) : Prop := c.rx = none → c.rxLen = 0 ∧ c.rxOff = 0 ∧ c.fs = []

theorem Vuota.leggi (vuota : Vuota c) (massimo : UInt32) : Vuota (leggi c massimo).1 := by
  intro absent
  have sameRx : (Net.leggi c massimo).1.rx = c.rx := by
    rw [Net.leggi]
    split <;> rfl
  rw [sameRx] at absent
  obtain ⟨noLen, noOff, noFs⟩ := vuota absent
  have nothing : letti c massimo = 0 := by
    have few := toNat_letti c massimo
    rw [noLen] at few
    exact UInt32.toNat_inj.mp (Nat.le_zero.mp few)
  rw [Net.leggi, nothing]
  have isLen : c.rxLen - 0 = 0 := by
    rw [noLen]
    rfl
  rw [if_pos ⟨isLen, noFs⟩]
  exact ⟨isLen, rfl, noFs⟩

end

/-! ## Runs -/

inductive EventoRx where
  | dati (amb : Ambiente) (posizione : Nat) (n : UInt32)
  | leggi (massimo : UInt32)

/-- The connection, and all that has been read from it. -/
structure Prova where
  conn : Ricezione
  letti : List UInt8

def Prova.posizione (s : Prova) : Nat := s.letti.length + s.conn.rxLen.toNat

/-- The calls, on pieces of the stream `f` whose first number is `isn`. -/
def passoRx (isn : UInt32) (f : Nat → UInt8) (s : Prova) : EventoRx → Prova
  | .dati amb p n =>
    { s with conn := (rxDati amb s.conn (seqNumber isn p) (fun i => f (p + i)) n).1 }
  | .leggi massimo =>
    let r := leggi s.conn massimo
    { conn := r.1, letti := s.letti ++ r.2 }

/-- A piece is not empty and its number is within `2 ^ 31` of the one awaited. -/
def Pezzo (s : Prova) : EventoRx → Prop
  | .dati _ p n => n ≠ 0 ∧ s.posizione ≤ p + 2 ^ 31 ∧ p < s.posizione + 2 ^ 31
  | .leggi _ => True

/-- The buffer and the piece together are below half of the numbers. -/
def Corto (s : Prova) : EventoRx → Prop
  | .dati amb _ n => (rxCap amb s.conn).rxDim.toNat + n.toNat ≤ 2 ^ 31
  | .leggi _ => True

instance (s : Prova) : (e : EventoRx) → Decidable (Pezzo s e)
  | .dati _ p n =>
    inferInstanceAs (Decidable (n ≠ 0 ∧ s.posizione ≤ p + 2 ^ 31 ∧ p < s.posizione + 2 ^ 31))
  | .leggi _ => inferInstanceAs (Decidable True)

instance (s : Prova) : (e : EventoRx) → Decidable (Corto s e)
  | .dati amb _ n => inferInstanceAs (Decidable ((rxCap amb s.conn).rxDim.toNat + n.toNat ≤ 2 ^ 31))
  | .leggi _ => inferInstanceAs (Decidable True)

/-- The bytes read and those in the buffer are the stream up to the number awaited,
and what is kept ahead is in its place and within the buffer. -/
structure Fedele (isn : UInt32) (f : Nat → UInt8) (s : Prova) : Prop where
  numero : s.conn.rcvNxt = seqNumber isn s.posizione
  flusso : s.letti ++ (List.range s.conn.rxLen.toNat).map
      (fun i => s.conn.byte (s.conn.rxOff.toNat + i)) = (List.range s.posizione).map f
  tenuti : ∀ t ∈ s.conn.fs, ∀ k < (t.a - t.da).toNat,
    s.conn.byte (s.conn.rxOff.toNat + s.conn.rxLen.toNat + (t.da - s.conn.rcvNxt).toNat + k) =
      f (s.posizione + (t.da - s.conn.rcvNxt).toNat + k)
  dentro : s.conn.rxOff.toNat + s.conn.rxLen.toNat ≤ s.conn.rxDim.toNat ∧
    ∀ t ∈ s.conn.fs,
      s.conn.rxOff.toNat + s.conn.rxLen.toNat + (t.a - s.conn.rcvNxt).toNat ≤ s.conn.rxDim.toNat

section Runs

variable {isn : UInt32} {f : Nat → UInt8} {s : Prova}

/-- The invariant of the runs. -/
structure ProvaSana (isn : UInt32) (f : Nat → UInt8) (s : Prova) : Prop where
  intatto : Intatto isn f s.letti.length s.conn
  letti : s.letti = (List.range s.letti.length).map f
  vuota : Vuota s.conn

theorem ProvaSana.start (isn : UInt32) (f : Nat → UInt8) :
    ProvaSana isn f { conn := Ricezione.nuova isn, letti := [] } := by
  refine ⟨Intatto.vuoto (seqNumber_zero isn).symm rfl rfl (Nat.zero_le _) ?_, rfl, ?_⟩
  · exact Nat.two_pow_pos 31
  · exact fun _ => ⟨rfl, rfl, rfl⟩

theorem ProvaSana.passo (sana : ProvaSana isn f s) {e : EventoRx} (pezzo : Pezzo s e)
    (corto : Corto s e) : ProvaSana isn f (passoRx isn f s e) := by
  cases e with
  | dati amb p n =>
    obtain ⟨ne, behind, near⟩ := pezzo
    have pos : 0 < n.toNat := Nat.pos_of_ne_zero fun zero => ne (UInt32.toNat_inj.mp zero)
    have fits : (rxCap amb s.conn).rxDim.toNat + n.toNat ≤ 2 ^ 31 := corto
    have taken := rxCap_taken amb s.conn
    have small : (rxCap amb s.conn).rxDim.toNat < 2 ^ 31 := by omega
    have prepared := sana.intatto.rxCap small sana.vuota
    have again : rxDati amb s.conn (seqNumber isn p) (fun i => f (p + i)) n =
        rxDati amb (rxCap amb s.conn) (seqNumber isn p) (fun i => f (p + i)) n := by
      rw [rxDati, rxDati, rxCap_preso taken]
    refine ⟨?_, sana.letti, ?_⟩
    · show Intatto isn f s.letti.length (rxDati amb s.conn _ _ n).1
      rw [Prova.posizione, ← rxLen_rxCap] at behind near
      rw [again]
      exact prepared.rxDati taken behind near pos fits
    · intro absent
      have taken' := rxDati_taken amb s.conn (seqNumber isn p) (fun i => f (p + i)) n
      change (rxDati amb s.conn _ _ n).1.rx = none at absent
      rw [absent] at taken'
      cases taken'
  | leggi massimo =>
    have bytes := sana.intatto.leggi_bytes massimo
    have isLength : (s.letti ++ (leggi s.conn massimo).2).length =
        s.letti.length + (Net.letti s.conn massimo).toNat := by
      rw [length_append, bytes, length_map, length_range]
    refine ⟨?_, ?_, sana.vuota.leggi massimo⟩
    · show Intatto isn f (s.letti ++ (leggi s.conn massimo).2).length (leggi s.conn massimo).1
      rw [isLength]
      exact sana.intatto.leggi massimo
    · show s.letti ++ (leggi s.conn massimo).2 =
        (List.range (s.letti ++ (leggi s.conn massimo).2).length).map f
      rw [isLength, range_add, map_append, ← sana.letti, bytes, map_map]
      rfl

theorem ProvaSana.fedele (sana : ProvaSana isn f s) : Fedele isn f s := by
  have intact := sana.intatto
  have le := intact.buoni.dentro
  have same : s.letti.length + s.conn.rxLen.toNat - s.letti.length = s.conn.rxLen.toNat := by omega
  rw [same] at le
  -- The positions of a kept stretch, from its numbers.
  have positions : ∀ t ∈ s.conn.fs, ∃ inizio fine,
      AlPosto f s.letti.length s.conn inizio fine ∧ s.posizione < inizio ∧
      (t.a - t.da).toNat = fine - inizio ∧ inizio < fine ∧
      (t.da - s.conn.rcvNxt).toNat = inizio - s.posizione ∧
      (t.a - s.conn.rcvNxt).toNat = fine - s.posizione := by
    intro t mem
    obtain ⟨inizio, fine, isT, proper, posto, ahead, near⟩ := intact.posizioni mem
    refine ⟨inizio, fine, posto, ahead, ?_, proper, ?_, ?_⟩
    · rw [isT]
      exact seqNumber_sub (Nat.le_of_lt proper) (by omega)
    · rw [isT]
      exact intact.distanza (Nat.le_of_lt ahead) (by omega)
    · rw [isT]
      exact intact.distanza (by omega) (by omega)
  refine ⟨intact.numero, ?_, ?_, le, ?_⟩
  · rw [Prova.posizione, range_add, map_append, ← sana.letti, map_map]
    congr 1
    apply map_congr_left
    intro i mem
    exact intact.buono (mem_range.mp mem)
  · intro t mem k below
    obtain ⟨inizio, fine, posto, ahead, isLength, proper, isDa, _⟩ := positions t mem
    have isByte := posto.isByte (inizio + k) (by omega) (by omega)
    rw [Prova.posizione] at ahead isDa
    rw [isDa, Prova.posizione]
    have place : s.conn.rxOff.toNat + s.conn.rxLen.toNat +
        (inizio - (s.letti.length + s.conn.rxLen.toNat)) + k =
        s.conn.rxOff.toNat + (inizio + k - s.letti.length) := by omega
    have pos : s.letti.length + s.conn.rxLen.toNat +
        (inizio - (s.letti.length + s.conn.rxLen.toNat)) + k = inizio + k := by omega
    rw [place, pos]
    exact isByte
  · intro t mem
    obtain ⟨inizio, fine, posto, ahead, _, proper, _, isA⟩ := positions t mem
    have stop := posto.dentro
    rw [Prova.posizione] at ahead isA
    omega

/-- Whatever the order, the overlaps and the reads, the stream comes out. -/
theorem corsa_fedele (reached : Reached (· = { conn := Ricezione.nuova isn, letti := [] })
      (fun s e s' => Pezzo s e ∧ Corto s e ∧ s' = passoRx isn f s e) s) : Fedele isn f s := by
  apply ProvaSana.fedele
  apply reached.invariant (ProvaSana isn f)
  · intro fst isFirst
    rw [isFirst]
    exact ProvaSana.start isn f
  · rintro pre e after sana ⟨pezzo, corto, isAfter⟩
    rw [isAfter]
    exact sana.passo pezzo corto

end Runs

def ambienteRiserva : Ambiente :=
  { gRxDim := 4096, gRxGrandi := 0, rxGrandiMax := 256, malloc := none }

/-- The numbers turn round, the second byte comes first. -/
theorem corsa_fedele_disordine : Fedele (2 ^ 32 - 1) (fun i => UInt8.ofNat (i + 65))
      (passoRx (2 ^ 32 - 1) (fun i => UInt8.ofNat (i + 65))
        (passoRx (2 ^ 32 - 1) (fun i => UInt8.ofNat (i + 65))
          { conn := Ricezione.nuova (2 ^ 32 - 1), letti := [] } (.dati ambienteRiserva 1 1))
        (.dati ambienteRiserva 0 1)) := by
  apply corsa_fedele
  refine Reached.next ?_ ⟨by decide, by decide, rfl⟩
  exact Reached.next (Reached.start rfl) ⟨by decide, by decide, rfl⟩

/-- A piece of half the numbers, just below half of them ahead: the sum that is
compared with the capacity turns round, and the piece is kept beyond the buffer. -/
theorem tratto_oltre : ∃ s : Prova, Reached (· = { conn := Ricezione.nuova 0, letti := [] })
        (fun s e s' => Pezzo s e ∧ s' = passoRx 0 (fun _ => 0) s e) s ∧
      s.conn.rxDim = 4096 ∧ ∃ t ∈ s.conn.fs,
        s.conn.rxOff.toNat + s.conn.rxLen.toNat + (t.a - s.conn.rcvNxt).toNat = 2 ^ 32 := by
  have fst : Reached (· = { conn := Ricezione.nuova 0, letti := [] })
      (fun s e s' => Pezzo s e ∧ s' = passoRx 0 (fun _ => 0) s e)
      (passoRx 0 (fun _ => 0) { conn := Ricezione.nuova 0, letti := [] }
        (.dati ambienteRiserva 0 2)) :=
    Reached.next (Reached.start rfl) ⟨by decide, rfl⟩
  have snd : Pezzo (passoRx 0 (fun _ => 0) { conn := Ricezione.nuova 0, letti := [] }
      (.dati ambienteRiserva 0 2)) (.dati ambienteRiserva (2 ^ 31 + 1) (2 ^ 31 - 1)) := by decide
  refine ⟨_, fst.next ⟨snd, rfl⟩, by decide, ?_⟩
  exact ⟨{ da := 2 ^ 31 + 1, a := 0 }, by decide, by decide⟩

end ExOs.Net
