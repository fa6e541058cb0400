import ExOs.Boot.Rdlz4

/-!
# The compressor of the base system

`comprimi` of `tools/lz4exos.py`, and what `lz4_blocco` makes of the block it
writes.
-/

namespace ExOs.Boot

open ExOs.Library List Query

def minmatch : Nat := 4

def lastliterals : Nat := 5

def mflimit : Nat := 12

def maxoff : Nat := 65535

/-- `_lunghezza`. -/
def lunghezza (n : Nat) : List UInt8 :=
  if 255 ≤ n then 255 :: lunghezza (n - 255) else [UInt8.ofNat n]
termination_by n
decreasing_by omega

/-- The bytes that follow a nibble, for a length of which it can hold 14. -/
def seguito (len : Nat) : List UInt8 :=
  if 15 ≤ len then lunghezza (len - 15) else []

/-- `_sequenza`: literals, and a match given by its length and distance. -/
def sequenza (lit : List UInt8) : Option (Nat × Nat) → List UInt8
  | none => UInt8.ofNat (min lit.length 15 <<< 4) :: (seguito lit.length ++ lit)
  | some (mlen, off) =>
    UInt8.ofNat (min lit.length 15 <<< 4 ||| min (mlen - minmatch) 15) ::
      (seguito lit.length ++ lit ++ [UInt8.ofNat (off % 256), UInt8.ofNat (off / 256)] ++
        seguito (mlen - minmatch))

/-- The table: the last position known for four bytes. -/
abbrev Tabella := List UInt8 → Option Nat

def Tabella.metti (tab : Tabella) (chiave : List UInt8) (k : Nat) : Tabella :=
  fun altra => if altra = chiave then some k else tab altra

variable (d : List UInt8)

/-- `d[i:i + n]`. -/
def fetta (i n : Nat) : List UInt8 := (d.drop i).take n

def estendi64 (d : List UInt8) (cand i fine : Nat) : Nat → Nat → Nat
  | 0, l => l
  | giri + 1, l =>
    if i + l + 64 ≤ fine ∧ fetta d (cand + l) 64 = fetta d (i + l) 64 then
      estendi64 d cand i fine giri (l + 64)
    else l

def estendi1 (d : List UInt8) (cand i fine : Nat) : Nat → Nat → Nat
  | 0, l => l
  | giri + 1, l =>
    if i + l < fine ∧ d.getD (cand + l) 0 = d.getD (i + l) 0 then
      estendi1 d cand i fine giri (l + 1)
    else l

def lungo (cand i : Nat) : Nat :=
  let fine := d.length - lastliterals
  estendi1 d cand i fine d.length (estendi64 d cand i fine d.length minmatch)

/-- Some positions inside a match go into the table: `range(inizio, stop,
passo)`. -/
def semina (inizio stop passo : Nat) (tab : Tabella) : Tabella :=
  (List.range' inizio ((stop - inizio + passo - 1) / passo) passo).foldl
    (fun tab k => tab.metti (fetta d k 4) k) tab

/-- The loop of `comprimi` from position `i` on, with the literals from
`anchor` still to be written: the bytes it appends. `i` grows in every round,
so `len(d)` rounds are enough. -/
def comprimiDa (d : List UInt8) : Nat → Tabella → Nat → Nat → List UInt8
  | 0, _, anchor, _ => sequenza (d.drop anchor) none
  | giri + 1, tab, anchor, i =>
    let limite := d.length - mflimit
    if i < limite then
      let chiave := fetta d i 4
      let tab' := tab.metti chiave i
      match tab chiave with
      | none => comprimiDa d giri tab' anchor (i + 1)
      | some cand =>
        if maxoff < i - cand then comprimiDa d giri tab' anchor (i + 1)
        else
          let l := lungo d cand i
          sequenza (fetta d anchor (i - anchor)) (some (l, i - cand)) ++
            comprimiDa d giri
              (semina d (i + 1) (min (i + l) limite) (max 1 (l / 8)) tab')
              (i + l) (i + l)
    else sequenza (d.drop anchor) none

def comprimi : List UInt8 := comprimiDa d d.length (fun _ => none) 0 0

/-! ## Lengths and literals read back -/

def memoria (src : List UInt8) : Nat → UInt8 := fun i => src.getD i 0

section Decodifica

variable {src rest : List UInt8} {ip : Nat} {b : UInt8} {mlen off : Nat}

theorem memoria_head (here : src.drop ip = b :: rest) : memoria src ip = b := by
  have fst : src[ip]? = some b := by rw [← List.head?_drop, here, List.head?_cons]
  rw [memoria, getD_eq_getElem?_getD, fst, Option.getD_some]

theorem drop_append {front : List UInt8} (here : src.drop ip = front ++ rest) :
    src.drop (ip + front.length) = rest := by
  rw [← drop_drop, here, drop_left]

theorem drop_tail (here : src.drop ip = b :: rest) : src.drop (ip + 1) = rest := by
  have split : src.drop ip = [b] ++ rest := here
  exact drop_append split

theorem length_sub : src.drop ip = rest → src.length - ip = rest.length := by
  intro here
  rw [← here, length_drop]

theorem length_cons_sub (here : src.drop ip = b :: rest) :
    src.length - ip = (src.length - (ip + 1)) + 1 := by
  have left := length_sub here
  rw [length_cons] at left
  omega

theorem toNat_ofNat_small {n : Nat} (small : n < 256) : (UInt8.ofNat n).toNat = n :=
  UInt8.toNat_ofNat_of_lt' small

theorem lunga_lunghezza {n : Nat} :
    ∀ (ip len : Nat), src.drop ip = lunghezza n ++ rest → len + n < 2 ^ 32 →
      (lunga (src.length - ip) ip len).eval (memoria src) =
        some (ip + (lunghezza n).length, len + n) := by
  induction n using lunghezza.induct with
  | case1 n large ih =>
    intro ip len here short
    rw [lunghezza, if_pos large] at here
    rw [length_cons_sub here, lunga, eval, memoria_head here, if_pos rfl,
      Nat.mod_eq_of_lt (by omega : len + 255 < 2 ^ 32),
      ih (ip + 1) (len + 255) (drop_tail here) (by omega),
      lunghezza.eq_def n, if_pos large, length_cons,
      show ip + 1 + (lunghezza (n - 255)).length = ip + ((lunghezza (n - 255)).length + 1) by omega,
      show len + 255 + (n - 255) = len + n by omega]
  | case2 n small =>
    intro ip len here short
    rw [lunghezza, if_neg small] at here
    have value : (UInt8.ofNat n).toNat = n := toNat_ofNat_small (by omega)
    have other : UInt8.ofNat n ≠ 255 := by
      intro same
      rw [same] at value
      have : (255 : UInt8).toNat = 255 := rfl
      omega
    rw [length_cons_sub here, lunga, eval, memoria_head here, if_neg other, eval,
      value, Nat.mod_eq_of_lt short, lunghezza, if_neg small, length_singleton]

theorem campo_seguito {len : Nat}
    (here : src.drop ip = seguito len ++ rest) (short : len < 2 ^ 32) :
    (campo src.length ip (min len 15)).eval (memoria src) =
      some (ip + (seguito len).length, len) := by
  unfold campo seguito at *
  by_cases large : 15 ≤ len
  · rw [if_pos large] at here ⊢
    rw [if_pos (by omega), lunga_lunghezza ip 15 here (by omega)]
    congr 2
    omega
  rw [if_neg large] at here ⊢
  rw [if_neg (by omega), eval]
  congr 2
  omega

theorem letterali_lit {lit : List UInt8} :
    ∀ (ip : Nat) (out : List UInt8), src.drop ip = lit ++ rest →
      (letterali lit.length ip out).eval (memoria src) = out ++ lit := by
  induction lit with
  | nil =>
    intro ip out _
    rw [length_nil, letterali, eval, append_nil]
  | cons b lit ih =>
    intro ip out here
    rw [length_cons, letterali, eval, memoria_head here,
      ih (ip + 1) (out ++ [b]) (drop_tail here), append_assoc, singleton_append]

variable {low cap : Nat} {out lit : List UInt8}

theorem toNat_token {high : Nat} (lowSmall : low ≤ 15) (highSmall : high ≤ 15) :
    (UInt8.ofNat (high <<< 4 ||| low)).toNat = high * 16 + low := by
  rw [← Nat.shiftLeft_add_eq_or_of_lt (by omega), Nat.shiftLeft_eq, toNat_ofNat_small (by omega)]

theorem corrispondenza_letta
    (here : src.drop ip = [UInt8.ofNat (off % 256), UInt8.ofNat (off / 256)] ++
      seguito (mlen - minmatch) ++ rest)
    (pos : 0 < off) (near : off ≤ maxoff) (known : off ≤ out.length)
    (least : minmatch ≤ mlen) (short : mlen < 2 ^ 32) (room : out.length + mlen ≤ cap) :
    (corrispondenza src.length cap ip (min (mlen - minmatch) 15) out).eval (memoria src) =
      (.avanti (ip + (2 + (seguito (mlen - minmatch)).length)), copyBack off mlen out) := by
  simp only [cons_append, nil_append] at here
  have left := length_sub here
  simp only [length_cons] at left
  have small : off / 256 < 256 := by
    unfold maxoff at near
    omega
  have distance : (UInt8.ofNat (off % 256)).toNat +
      256 * (UInt8.ofNat (off / 256)).toNat = off := by
    rw [toNat_ofNat_small (Nat.mod_lt _ (by decide)), toNat_ofNat_small small]
    omega
  unfold corrispondenza
  rw [if_neg (by omega), eval_bind, eval_bind]
  simp only [leggi, eval, memoria_head here, memoria_head (drop_tail here), distance]
  rw [if_neg (by omega), eval_bind,
    campo_seguito (drop_tail (drop_tail here)) (by omega)]
  dsimp only
  unfold minmatch at *
  rw [show (mlen - 4 + 4) % 2 ^ 32 = mlen by omega, if_neg (by omega),
    show ip + 1 + 1 + (seguito (mlen - 4)).length = ip + (2 + (seguito (mlen - 4)).length) by omega]
  rfl

theorem giro_letto {tail : List UInt8} (lowSmall : low ≤ 15)
    (here : src.drop ip = UInt8.ofNat (min lit.length 15 <<< 4 ||| low) ::
      (seguito lit.length ++ (lit ++ tail)))
    (short : lit.length < 2 ^ 32) (room : out.length + lit.length ≤ cap) :
    src.drop (ip + (1 + (seguito lit.length).length + lit.length)) = tail ∧
      (giro src.length cap ip out).eval (memoria src) = if tail = [] then (.ultimo, out ++ lit)
        else (corrispondenza src.length cap
          (ip + (1 + (seguito lit.length).length + lit.length)) low
            (out ++ lit)).eval (memoria src) := by
  have afterToken := drop_tail here
  have afterLength := drop_append afterToken
  have afterLit := drop_append afterLength
  have place : ip + 1 + (seguito lit.length).length + lit.length =
      ip + (1 + (seguito lit.length).length + lit.length) := by omega
  rw [place] at afterLit
  have left := length_sub here
  have leftLit := length_sub afterLength
  have leftTail := length_sub afterLit
  simp only [length_cons, length_append] at left leftLit
  refine ⟨afterLit, ?_⟩
  unfold giro
  rw [if_neg (by omega), eval_bind]
  simp only [leggi, eval, memoria_head here]
  rw [toNat_token lowSmall (by omega),
    show (min lit.length 15 * 16 + low) / 16 = min lit.length 15 by omega,
    show (min lit.length 15 * 16 + low) % 16 = low by omega,
    eval_bind, campo_seguito afterToken short]
  dsimp only
  rw [if_neg (by omega), eval_bind, letterali_lit _ out afterLength, place]
  by_cases last : tail = []
  · rw [if_pos last, if_pos]
    · rfl
    · rw [last, length_nil] at leftTail
      omega
  · have more : 0 < tail.length := length_pos_of_ne_nil last
    rw [if_neg last, if_neg (by omega)]

theorem giro_ultimo (here : src.drop ip = sequenza lit none) (short : lit.length < 2 ^ 32)
    (room : out.length + lit.length ≤ cap) :
    (giro src.length cap ip out).eval (memoria src) = (.ultimo, out ++ lit) := by
  have shape : src.drop ip = UInt8.ofNat (min lit.length 15 <<< 4 ||| 0) ::
      (seguito lit.length ++ (lit ++ [])) := by
    rw [here, sequenza, Nat.or_zero, append_nil]
  rw [(giro_letto (by decide) shape short room).2, if_pos rfl]

theorem giro_avanti (here : src.drop ip = sequenza lit (some (mlen, off)) ++ rest)
    (shortLit : lit.length < 2 ^ 32) (pos : 0 < off) (near : off ≤ maxoff)
    (known : off ≤ out.length + lit.length) (least : minmatch ≤ mlen)
    (short : mlen < 2 ^ 32) (room : out.length + lit.length + mlen ≤ cap) :
    (giro src.length cap ip out).eval (memoria src) =
      (.avanti (ip + (sequenza lit (some (mlen, off))).length),
        copyBack off mlen (out ++ lit)) := by
  have shape : src.drop ip = UInt8.ofNat (min lit.length 15 <<< 4 ||| min (mlen - minmatch) 15) ::
        (seguito lit.length ++ (lit ++ ([UInt8.ofNat (off % 256), UInt8.ofNat (off / 256)] ++
            seguito (mlen - minmatch) ++ rest))) := by
    rw [here, sequenza]
    simp only [cons_append, append_assoc]
  obtain ⟨after, res⟩ := giro_letto (Nat.min_le_right _ _) shape shortLit
    (by omega : out.length + lit.length ≤ cap)
  rw [res, if_neg (by simp), corrispondenza_letta after pos near
    (by rw [length_append]; exact known) least short
    (by rw [length_append]; exact room)]
  congr 2
  rw [sequenza]
  simp only [length_cons, length_append, length_nil]
  omega

end Decodifica

section Corrispondenze

variable {d : List UInt8} {cand i : Nat}

/-- `l` bytes at `cand` and at `i` are the same. -/
def Uguali (d : List UInt8) (cand i l : Nat) : Prop := ∀ k < l, d[cand + k]? = d[i + k]?

theorem uguali_of_fetta {l : Nat} (same : fetta d cand l = fetta d i l) : Uguali d cand i l := by
  intro k small
  have element := congrArg (fun part => part[k]?) same
  simpa only [fetta, List.getElem?_take_of_lt small, List.getElem?_drop] using element

theorem Uguali.append {l m : Nat} (fst : Uguali d cand i l)
    (snd : Uguali d (cand + l) (i + l) m) : Uguali d cand i (l + m) := by
  intro k small
  by_cases early : k < l
  · exact fst k early
  · have later := snd (k - l) (by omega)
    rw [show cand + l + (k - l) = cand + k by omega, show i + l + (k - l) = i + k by omega] at later
    exact later

/-- A match of at least `least` bytes that ends by `fine`. -/
def Combacia (d : List UInt8) (cand i fine least l : Nat) : Prop :=
  least ≤ l ∧ i + l ≤ fine ∧ Uguali d cand i l

theorem Combacia.append {fine least l m : Nat} (fst : Combacia d cand i fine least l)
    (fits : i + l + m ≤ fine) (snd : Uguali d (cand + l) (i + l) m) :
    Combacia d cand i fine least (l + m) :=
  ⟨Nat.le_add_right_of_le fst.1, by omega, fst.2.2.append snd⟩

theorem estendi64_uguali {fine least giri : Nat} : ∀ l, Combacia d cand i fine least l →
      Combacia d cand i fine least (estendi64 d cand i fine giri l) := by
  induction giri with
  | zero => exact fun _ => id
  | succ giri ih =>
    intro l same
    rw [estendi64]
    split
    · next more => exact ih (l + 64) (same.append more.1 (uguali_of_fetta more.2))
    · exact same

theorem estendi1_uguali {fine : Nat} (pre : cand < i) (le : fine ≤ d.length) {least giri : Nat} :
    ∀ l, Combacia d cand i fine least l →
      Combacia d cand i fine least (estendi1 d cand i fine giri l) := by
  induction giri with
  | zero => exact fun _ => id
  | succ giri ih =>
    intro l same
    rw [estendi1]
    split
    · next more =>
      have one : Uguali d (cand + l) (i + l) 1 := by
        intro k small
        have byte := more.2
        rw [getD_eq_getElem d 0 (by omega), getD_eq_getElem d 0 (by omega)] at byte
        rw [show k = 0 by omega, Nat.add_zero, Nat.add_zero, List.getElem?_eq_getElem (by omega),
          List.getElem?_eq_getElem (by omega), byte]
      exact ih (l + 1) (same.append more.1 one)
    · exact same

theorem lungo_uguali (pre : cand < i) (early : i < d.length - mflimit)
    (same : fetta d cand 4 = fetta d i 4) :
    minmatch ≤ lungo d cand i ∧ i + lungo d cand i ≤ d.length ∧
      Uguali d cand i (lungo d cand i) := by
  unfold lungo lastliterals mflimit minmatch at *
  have four : Combacia d cand i (d.length - 5) 4 4 :=
    ⟨Nat.le_refl 4, by omega, uguali_of_fetta same⟩
  obtain ⟨long, fits, whole⟩ := estendi1_uguali pre (Nat.sub_le _ _) _ (estendi64_uguali 4 four)
  exact ⟨long, Nat.le_trans fits (Nat.sub_le _ _), whole⟩

end Corrispondenze

/-- Every entry is a position before `i` with its four bytes. -/
def Tabella.Fedele (i : Nat) (tab : Tabella) : Prop :=
  ∀ chiave k, tab chiave = some k → k < i ∧ fetta d k 4 = chiave

section Tabella

variable {d : List UInt8} {i : Nat} {tab : Tabella}

theorem Tabella.Fedele.mono (fedele : tab.Fedele d i) {j : Nat} (later : i ≤ j) :
    tab.Fedele d j := by
  intro chiave k found
  obtain ⟨pre, bytes⟩ := fedele chiave k found
  exact ⟨Nat.lt_of_lt_of_le pre later, bytes⟩

theorem Tabella.Fedele.metti (fedele : tab.Fedele d i) {k : Nat} (pre : k < i) :
    (tab.metti (fetta d k 4) k).Fedele d i := by
  intro chiave k' found
  unfold Tabella.metti at found
  split at found
  · next same =>
    injection found with isK
    rw [← isK]
    exact ⟨pre, same.symm⟩
  · exact fedele chiave k' found

theorem Tabella.Fedele.foldl (ks : List Nat) : ∀ tab : Tabella, tab.Fedele d i → (∀ k ∈ ks, k < i) →
      (ks.foldl (fun tab k => tab.metti (fetta d k 4) k) tab).Fedele d i := by
  induction ks with
  | nil =>
    intro tab fedele _
    exact fedele
  | cons k ks ih =>
    intro tab fedele pre
    apply ih
    · exact fedele.metti (pre k mem_cons_self)
    · intro k' mem
      exact pre k' (mem_cons_of_mem k mem)

theorem range_before {inizio stop passo k : Nat} (pos : 0 < passo)
    (mem : k ∈ List.range' inizio ((stop - inizio + passo - 1) / passo) passo) :
    k < stop := by
  obtain ⟨j, few, isK⟩ := mem_range'.mp mem
  have mul : (j + 1) * passo ≤ stop - inizio + passo - 1 := (Nat.le_div_iff_mul_le pos).mp few
  rw [Nat.add_mul, Nat.mul_comm] at mul
  omega

theorem Tabella.Fedele.semina (fedele : tab.Fedele d i) (inizio : Nat)
    {stop passo : Nat} (pos : 0 < passo) (within : stop ≤ i) :
    (semina d inizio stop passo tab).Fedele d i := by
  apply Tabella.Fedele.foldl _ _ fedele
  intro k mem
  exact Nat.lt_of_lt_of_le (range_before pos mem) within

end Tabella

/-! ## Round trip -/

theorem length_lunghezza {n : Nat} : (lunghezza n).length = n / 255 + 1 := by
  induction n using lunghezza.induct with
  | case1 n large ih =>
    rw [lunghezza, if_pos large, length_cons]
    omega
  | case2 n small =>
    rw [lunghezza, if_neg small, length_singleton]
    omega

theorem length_seguito (len : Nat) : (seguito len).length ≤ len := by
  unfold seguito
  split
  · rw [length_lunghezza]
    omega
  · exact Nat.zero_le len

theorem length_sequenza_none (lit : List UInt8) :
    (sequenza lit none).length ≤ 2 * lit.length + 1 := by
  have := length_seguito lit.length
  simp only [sequenza, length_cons, length_append]
  omega

theorem length_sequenza_some (lit : List UInt8) {mlen : Nat} (off : Nat) (least : minmatch ≤ mlen) :
    (sequenza lit (some (mlen, off))).length ≤ 2 * (lit.length + mlen) := by
  have literals := length_seguito lit.length
  have matched := length_seguito (mlen - minmatch)
  simp only [sequenza, length_cons, length_append, length_nil]
  unfold minmatch at *
  omega

section AndataRitorno

variable {d : List UInt8}

theorem length_fetta (anchor : Nat) {i : Nat} (le : i ≤ d.length) :
    (fetta d anchor (i - anchor)).length = i - anchor := by
  rw [fetta, length_take, length_drop]
  omega

theorem take_fetta {anchor i : Nat} (order : anchor ≤ i) :
    d.take anchor ++ fetta d anchor (i - anchor) = d.take i := by
  rw [fetta, ← take_add, Nat.add_sub_cancel' order]

/-- What the loop appends after `anchor` is a sequence for each match that it finds and a
last one with no match. -/
theorem comprimi_induct {P : Nat → List UInt8 → Prop}
    (last : ∀ anchor ≤ d.length, P anchor (sequenza (d.drop anchor) none))
    (avanti : ∀ {anchor i cand mlen : Nat} {out : List UInt8}, anchor ≤ i → cand < i →
      i - cand ≤ maxoff → minmatch ≤ mlen → i + mlen ≤ d.length → Uguali d cand i mlen →
      P (i + mlen) out →
      P anchor (sequenza (fetta d anchor (i - anchor)) (some (mlen, i - cand)) ++ out)) :
    P 0 (comprimi d) := by
  have loop : ∀ (giri : Nat) (tab : Tabella) (anchor i : Nat), tab.Fedele d i → anchor ≤ i →
      anchor ≤ d.length → P anchor (comprimiDa d giri tab anchor i) := by
    intro giri
    induction giri with
    | zero => exact fun _ anchor _ _ _ le => last anchor le
    | succ giri ih =>
      intro tab anchor i fedele order le
      have fedele' := (fedele.mono (Nat.le_succ i)).metti (Nat.lt_succ_self i)
      rw [comprimiDa]
      dsimp only
      split
      · next early =>
        cases found : tab (fetta d i 4) with
        | none => exact ih _ anchor _ fedele' (by omega) le
        | some cand =>
          dsimp only
          split
          · exact ih _ anchor _ fedele' (by omega) le
          obtain ⟨pre, bytes⟩ := fedele _ _ found
          obtain ⟨least, fits, same⟩ := lungo_uguali pre early bytes
          have grown : i + 1 ≤ i + lungo d cand i := by
            unfold minmatch at least
            omega
          refine avanti order pre (by omega) least fits same (ih _ _ _ ?_ (Nat.le_refl _) fits)
          exact (fedele'.mono grown).semina (i + 1) (Nat.le_max_left 1 (lungo d cand i / 8))
            (Nat.min_le_left _ (d.length - mflimit))
      · exact last anchor le
  refine loop d.length _ 0 0 (fun chiave k found => ?_) (Nat.le_refl 0) (Nat.zero_le _)
  cases found

theorem length_comprimi : (comprimi d).length ≤ 2 * d.length + 1 := by
  refine comprimi_induct (P := fun anchor out => out.length ≤ 2 * (d.length - anchor) + 1) ?_ ?_
  · intro anchor _
    rw [← length_drop]
    exact length_sequenza_none _
  · intro anchor i cand mlen out order _ _ least fits _ rest
    have fst := length_sequenza_some (fetta d anchor (i - anchor)) (i - cand) least
    rw [length_fetta anchor (by omega)] at fst
    rw [length_append]
    omega

theorem lz4Blocco_comprimi (short : d.length < 2 ^ 32) :
    (lz4Blocco (comprimi d).length d.length).eval (memoria (comprimi d)) =
      some (Int.bmod d.length (2 ^ 32), d) := by
  generalize isSrc : comprimi d = src
  -- The decoder at the bytes that the loop appends, with what is before `anchor` written.
  have decodes := comprimi_induct (d := d) (P := fun anchor out => ∀ ip fuel : Nat,
    src.drop ip = out → src.length - ip < fuel →
      (lz4Da src.length d.length fuel ip (d.take anchor)).eval (memoria src) =
        some (Int.bmod d.length (2 ^ 32), d)) ?_ ?_
  · exact decodes 0 _ isSrc.symm (by omega)
  · intro anchor le ip fuel here enough
    cases fuel with
    | zero => omega
    | succ fuel =>
      rw [lz4Da, eval_bind, giro_ultimo here (by rw [length_drop]; omega)
        (by rw [length_take, length_drop]; omega),
        take_append_drop]
      rfl
  · intro anchor i cand mlen out order pre near least fits same rest ip fuel here enough
    have stored : (d.take anchor).length = anchor := length_take_of_le (by omega)
    have literals := length_fetta anchor (by omega : i ≤ d.length)
    cases fuel with
    | zero => omega
    | succ fuel =>
      rw [lz4Da, eval_bind, giro_avanti here (by omega) (by omega) (by omega) (by omega) least
        (by omega) (by omega), take_fetta order]
      have copied := copyBack_take d (by omega : 0 < i - cand) mlen i (by omega) fits (by
        rw [show i - (i - cand) = cand by omega]
        exact same)
      rw [copied]
      refine rest _ fuel (drop_append here) ?_
      have left := length_sub here
      rw [length_append] at left
      have token : 0 < (sequenza (fetta d anchor (i - anchor)) (some (mlen, i - cand))).length :=
        Nat.succ_pos _
      omega

end AndataRitorno

theorem bmod_small {k : Nat} (small : k < 2 ^ 31) : Int.bmod (k : Int) (2 ^ 32) = k := by
  apply Int.bmod_eq_of_le <;> omega

/-- The block that `comprimi` writes is expanded to what it was, and on any
block with a capacity below 2^31 the decoder reads only the block, writes only
the capacity and returns -1 or the number of bytes written. -/
theorem exlz_andata_ritorno (d : List UInt8) (short : d.length < 2 ^ 31)
    (mem : Nat → UInt8) (n cap : Nat) (capacity : cap < 2 ^ 31) :
    ((comprimi d).length < 2 ^ 32 ∧
      (lz4Blocco (comprimi d).length d.length).eval (memoria (comprimi d)) =
        some ((d.length : Int), d)) ∧ (∀ i ∈ (lz4Blocco n cap).trace mem, i < n) ∧ ∃ valore scritti,
        (lz4Blocco n cap).eval mem = some (valore, scritti) ∧
          scritti.length ≤ cap ∧ (valore = -1 ∨ valore = scritti.length) := by
  refine ⟨⟨?_, ?_⟩, ?_⟩
  · have := length_comprimi (d := d)
    omega
  · rw [lz4Blocco_comprimi (by omega), bmod_small short]
  · obtain ⟨reads, valore, scritti, res, room, value⟩ := lz4Blocco_entro mem
    rw [bmod_small (Nat.lt_of_le_of_lt room capacity)] at value
    exact ⟨reads, valore, scritti, res, room, value⟩

/-- Here the block is shorter than the data: it has a match. -/
theorem exlz_andata_ritorno_ripetuto : (comprimi (replicate 40 7)).length < 40 ∧
    (lz4Blocco (comprimi (replicate 40 7)).length (replicate 40 (7 : UInt8)).length).eval
      (memoria (comprimi (replicate 40 7))) = some (40, replicate 40 7) ∧
    ∀ i ∈ (lz4Blocco 5 7).trace (fun _ => 255), i < 5 := by
  have both := exlz_andata_ritorno (replicate 40 7) (by decide) (fun _ => 255) 5 7 (by decide)
  exact ⟨by decide +kernel, both.1.2, both.2.1⟩

theorem lz4Blocco_ripetuto {mlen : Nat} (least : minmatch ≤ mlen)
    (short : mlen < 2 ^ 32) (src : List UInt8)
    (block : src = sequenza [0] (some (mlen, 1)) ++ sequenza [] none) :
    (lz4Blocco src.length (1 + mlen)).eval (memoria src) =
      some (Int.bmod (copyBack 1 mlen [(0 : UInt8)]).length (2 ^ 32), copyBack 1 mlen [0]) := by
  have here : src.drop 0 = sequenza [0] (some (mlen, 1)) ++ sequenza [] none := block
  have two : src.length + 1 = (src.length - 1) + 1 + 1 := by
    rw [block, length_append]
    have token : 0 < (sequenza [] none).length := Nat.succ_pos _
    omega
  unfold lz4Blocco
  rw [two, lz4Da, eval_bind, giro_avanti here (by decide) (by decide)
    (by decide) (by decide) least short (Nat.le_of_eq (by simp))]
  dsimp only
  rw [lz4Da, eval_bind, giro_ultimo (drop_append here) (by decide)
    (by rw [length_copyBack]; simp), append_nil]
  rfl

/-- With a capacity of 2^31 the number of bytes written does not fit in the
value returned. -/
theorem lz4_blocco_negativo :
    ∃ (src : List UInt8) (cap : Nat) (valore : Int) (scritti : List UInt8),
      src.length < 2 ^ 32 ∧ cap < 2 ^ 32 ∧
        (lz4Blocco src.length cap).eval (memoria src) = some (valore, scritti) ∧
        valore ≠ -1 ∧ valore ≠ scritti.length := by
  obtain ⟨mlen, isLong⟩ : ∃ mlen : Nat, mlen = 2 ^ 31 - 1 := ⟨_, rfl⟩
  have least : minmatch ≤ mlen := by
    unfold minmatch
    omega
  have written : (copyBack 1 mlen [(0 : UInt8)]).length = 2 ^ 31 := by
    rw [length_copyBack, length_singleton]
    omega
  refine ⟨_, 1 + mlen, _, _, ?_, by omega, lz4Blocco_ripetuto least (by omega) _ rfl, ?_, ?_⟩
  · have matched := length_seguito (mlen - minmatch)
    have literal := length_seguito 1
    have nothing := length_seguito 0
    simp only [sequenza, length_cons, length_append, length_nil, Nat.zero_add]
    omega
  · rw [written]
    decide
  · rw [written]
    decide

end ExOs.Boot
