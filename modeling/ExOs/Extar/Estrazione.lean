import ExOs.Extar.Archivio

/-!
# Extraction

`ex_tar_estrai_tutto` of `lib/extar/extar.c`.  What the system answers is a
function of all that was asked so far.
-/

namespace ExOs.Extar

open ExOs.Library List

inductive Atto where
  | mkdir
  | apri
  | scrivi
  | chmod

structure Operazione where
  atto : Atto
  percorso : List UInt8

section Code

variable (mondo : List Operazione → Bool)

/-- One operation more, and whether it succeeds. -/
def chiedi (op : Operazione) (storia : List Operazione) : Bool × List Operazione :=
  (mondo (storia ++ [op]), storia ++ [op])

/-- The next operation, if those before it succeeded. -/
def poi (op : Operazione) (r : Bool × List Operazione) : Bool × List Operazione :=
  if r.1 then chiedi mondo op r.2 else r

/-- The loop of `crea_cartelle` over the places of a path. -/
def creaDa (perc : List UInt8) : List Nat → List Operazione → Bool × List Operazione
  | [], storia => (true, storia)
  | k :: resto, storia =>
    if perc[k]? ≠ some 47 then creaDa perc resto storia
    else
      let r := chiedi mondo ⟨.mkdir, perc.take k⟩ storia
      if r.1 then creaDa perc resto r.2 else r

def creaCartelle (perc : List UInt8) (ancheUltimo : Bool) (storia : List Operazione) :
    Bool × List Operazione :=
  let r := creaDa mondo perc (range' 1 (perc.length - 1)) storia
  if ancheUltimo then poi mondo ⟨.mkdir, perc⟩ r else r

def nomeSicuroGiri : Nat → List UInt8 → Bool
  | 0, _ => true
  | giri + 1, p =>
    if p = [] then true
    else if p.take 2 = [46, 46] ∧ ((p.drop 2).head? = some 47 ∨ p.drop 2 = []) then false
    else nomeSicuroGiri giri ((p.dropWhile (· ≠ 47)).dropWhile (· = 47))

def nomeSicuro (n : List UInt8) : Bool := n.head? ≠ some 47 && nomeSicuroGiri n.length n

/-- `while (l > 1 && dest[l - 1] == '/') dest[--l] = 0`. -/
def senzaBarre (dest : List UInt8) : Nat → List UInt8
  | l + 2 => if dest[l + 1]? = some 47 then senzaBarre dest (l + 1) else dest.take (l + 2)
  | l => dest.take l

def exTarEstrai (v : Voce) (dest : List UInt8) (storia : List Operazione) :
    Bool × List Operazione :=
  if v.tipo = 53 then creaCartelle mondo (senzaBarre dest dest.length) true storia
  else if v.tipo = 48 ∨ v.tipo = 0 ∨ v.tipo = 55 then
    let r :=
      poi mondo ⟨.scrivi, dest⟩
        (chiedi mondo ⟨.apri, dest⟩ (creaCartelle mondo dest false storia).2)
    if v.modo &&& 73 ≠ 0 then (r.1, (poi mondo ⟨.chmod, dest⟩ r).2) else r
  else (false, storia)

/-- One round of `ex_tar_estrai_tutto`: how many members did not come out, and what was asked. -/
def estraiVoce (dove : List UInt8) (r : Nat × List Operazione) (v : Voce) : Nat × List Operazione :=
  let dest := dove ++ 47 :: v.nome
  if nomeSicuro v.nome = false ∨ 512 ≤ dest.length then (r.1 + 1, r.2)
  else
    let e := exTarEstrai mondo v dest r.2
    (if e.1 then r.1 else r.1 + 1, e.2)

def exTarEstraiTutto (voci : List Voce) (dove : List UInt8) : Nat × List Operazione :=
  voci.foldl (estraiVoce mondo dove) (0, [])

end Code

/-! ## Paths -/

/-- A component of a path, on the stack of those before it. -/
def passo (pila : List (List UInt8)) (c : List UInt8) : List (List UInt8) :=
  if c = [] ∨ c = [46] then pila else if c = [46, 46] then pila.dropLast else pila ++ [c]

variable (cwd : List (List UInt8))

/-- A path resolved from a current directory. -/
def risolvi (p : List UInt8) : List (List UInt8) :=
  (p.splitOn 47).foldl passo (if p.head? = some 47 then [] else cwd)

def Sotto (dove p : List UInt8) : Prop :=
  ∃ resto, resto ≠ [] ∧ risolvi cwd p = risolvi cwd dove ++ resto

/-- A directory on the way to the destination, or the destination. -/
def SulCammino (dove p : List UInt8) : Prop :=
  ∃ k, p = dove.take k ∧ (dove.length ≤ k ∨ dove[k]? = some 47)

/-- Names whose first component is one, and that never climb. -/
def Buono (nome : List UInt8) : Prop :=
  ∃ c resto, nome.splitOn 47 = c :: resto ∧ c ≠ [] ∧ c ≠ [46] ∧ [46, 46] ∉ nome.splitOn 47

section Paths

variable {cwd : List (List UInt8)} {dove nome p : List UInt8}

theorem split_casi :
    (47 ∉ p ∧ p.splitOn 47 = [p]) ∨ ∃ a b, p = a ++ 47 :: b ∧ 47 ∉ a ∧
      p.splitOn 47 = a :: b.splitOn 47 := by
  by_cases slash : 47 ∈ p
  · obtain ⟨a, b, isP, notIn⟩ := eq_append_cons_of_mem slash
    exact .inr ⟨a, b, isP, notIn, by rw [isP, splitOn_append_cons_self_of_not_mem notIn]⟩
  · exact .inl ⟨slash, splitOn_eq_singleton slash⟩

theorem foldl_passo {cs : List (List UInt8)} (never : [46, 46] ∉ cs) {pila : List (List UInt8)} :
    cs.foldl passo pila = pila ++ cs.filter fun c => c ≠ [] ∧ c ≠ [46] := by
  induction cs generalizing pila with
  | nil => exact (append_nil pila).symm
  | cons c cs ih =>
    rw [mem_cons, not_or] at never
    rw [foldl_cons, ih never.2, passo, filter_cons]
    split
    · next idle => rw [if_neg fun keeps => not_or.mpr (of_decide_eq_true keeps) idle]
    · next moves =>
      rw [if_neg (Ne.symm never.1), if_pos (by simpa using not_or.mp moves), append_assoc,
        singleton_append]

theorem Buono.sotto (buono : Buono nome) (named : dove ≠ []) :
    Sotto cwd dove (dove ++ 47 :: nome) := by
  obtain ⟨c, resto, isSplit, ne, notDot, never⟩ := buono
  refine ⟨(nome.splitOn 47).filter fun c => c ≠ [] ∧ c ≠ [46], ?_, ?_⟩
  · rw [isSplit, filter_cons_of_pos (by simp [ne, notDot])]
    exact cons_ne_nil _ _
  · rw [risolvi, splitOn_append_cons_self, foldl_append, head?_append_of_ne_nil _ named,
      foldl_passo never]
    rfl

theorem Buono.taglia (buono : Buono nome) {m : Nat} (place : nome.length ≤ m ∨ nome[m]? = some 47) :
    Buono (nome.take m) := by
  rcases place with whole | slash
  · rw [take_of_length_le whole]
    exact buono
  obtain ⟨lt, isSlash⟩ := List.getElem?_eq_some_iff.mp slash
  have parts : nome = nome.take m ++ 47 :: nome.drop (m + 1) := by
    rw [← isSlash, ← drop_eq_getElem_cons lt, take_append_drop]
  have isSplit : nome.splitOn 47 = (nome.take m).splitOn 47 ++ (nome.drop (m + 1)).splitOn 47 := by
    conv_lhs => rw [parts, splitOn_append_cons_self]
  obtain ⟨c, resto, fst, ne, notDot, never⟩ := buono
  obtain ⟨c', resto', isHead⟩ := exists_cons_of_ne_nil (splitOn_ne_nil 47 (nome.take m))
  rw [isSplit] at fst never
  rw [isHead] at fst
  refine ⟨c', resto', isHead, ?_, ?_, fun climbs => never (mem_append_left _ climbs)⟩
  · rw [(cons.inj fst).1]
    exact ne
  · rw [(cons.inj fst).1]
    exact notDot

theorem mem_splitOn_dropWhile {c : List UInt8} (ne : c ≠ []) (mem : c ∈ p.splitOn 47) :
    c ∈ (p.dropWhile (· = 47)).splitOn 47 := by
  induction p with
  | nil => exact mem
  | cons x p ih =>
    rw [dropWhile_cons]
    split
    · next isSlash =>
      rw [of_decide_eq_true isSlash, ← nil_append (47 :: p), splitOn_append_cons_self, splitOn_nil,
        singleton_append, mem_cons] at mem
      exact ih (mem.resolve_left ne)
    · exact mem

theorem nomeSicuroGiri_spec {giri : Nat} :
    ∀ p : List UInt8, p.length ≤ giri → nomeSicuroGiri giri p = true →
    [46, 46] ∉ p.splitOn 47 := by
  induction giri with
  | zero =>
    intro p short _
    rw [eq_nil_of_length_eq_zero (Nat.le_zero.mp short)]
    decide
  | succ giri ih =>
    intro p short safe
    rw [nomeSicuroGiri] at safe
    split at safe
    · next empty =>
      rw [empty]
      decide
    split at safe
    · cases safe
    next unlike =>
    rcases split_casi with ⟨_, isSplit⟩ | ⟨a, b, isP, notIn, isSplit⟩
    · rw [isSplit, mem_singleton]
      rintro rfl
      exact unlike ⟨rfl, .inr rfl⟩
    have skipped : p.dropWhile (· ≠ 47) = 47 :: b := by
      rw [isP, dropWhile_append_of_pos (by simpa using fun c mem => ne_of_mem_of_not_mem mem notIn)]
      rfl
    have length : b.length < p.length := by
      rw [isP, length_append, length_cons]
      omega
    rw [skipped, dropWhile_cons_of_pos rfl] at safe
    have later := ih _ ((dropWhile_sublist _).length_le.trans (by omega)) safe
    rw [isSplit, mem_cons, not_or]
    refine ⟨?_, fun climbs => later (mem_splitOn_dropWhile (by decide) climbs)⟩
    rintro rfl
    rw [isP] at unlike
    exact unlike ⟨rfl, .inl rfl⟩

theorem Elencato.buono (listed : Elencato nome) (safe : nomeSicuro nome = true) : Buono nome := by
  obtain ⟨ne, notDot, notHere⟩ := listed
  rw [nomeSicuro, Bool.and_eq_true_iff, decide_eq_true_iff] at safe
  have never := nomeSicuroGiri_spec nome (Nat.le_refl _) safe.2
  rcases split_casi with ⟨_, isSplit⟩ | ⟨a, b, isNome, _, isSplit⟩
  · exact ⟨nome, [], isSplit, ne, notDot, never⟩
  refine ⟨a, _, isSplit, ?_, ?_, never⟩
  · rintro rfl
    exact safe.1 (by rw [isNome]; rfl)
  · rintro rfl
    exact notHere (by rw [isNome]; rfl)

end Paths

/-! ## What is asked of the system -/

/-- Below the destination, or a directory on the way to it. -/
def Lecita (dove : List UInt8) (op : Operazione) : Prop :=
  Sotto cwd dove op.percorso ∨ op.atto = .mkdir ∧ SulCammino dove op.percorso

section Asked

variable (mondo : List Operazione → Bool) {cwd : List (List UInt8)} {dove nome : List UInt8}
  {storia : List Operazione} {op : Operazione}

theorem chiedi_lecita (pre : ∀ o ∈ storia, Lecita cwd dove o) (here : Lecita cwd dove op) :
    ∀ o ∈ (chiedi mondo op storia).2, Lecita cwd dove o := by
  intro o mem
  rcases mem_append.mp mem with old | new
  · exact pre o old
  · exact mem_singleton.mp new ▸ here

theorem poi_lecita {r : Bool × List Operazione} (pre : ∀ o ∈ r.2, Lecita cwd dove o)
    (here : Lecita cwd dove op) : ∀ o ∈ (poi mondo op r).2, Lecita cwd dove o := by
  rw [poi]
  split
  · exact chiedi_lecita mondo pre here
  · exact pre

/-- The path cut before a slash. -/
theorem Buono.cartella (buono : Buono nome) (named : dove ≠ []) {k : Nat}
    (place : (dove ++ 47 :: nome)[k]? = some 47) :
    Lecita cwd dove ⟨.mkdir, (dove ++ 47 :: nome).take k⟩ := by
  rcases Nat.lt_trichotomy k dove.length with pre | isEnd | after
  · refine .inr ⟨rfl, k, take_append_of_le_length (by omega), .inr ?_⟩
    rw [← place, getElem?_append_left pre]
  · refine .inr ⟨rfl, k, take_append_of_le_length (by omega), .inl (by omega)⟩
  · obtain ⟨m, rfl⟩ := Nat.exists_eq_add_of_lt after
    have isTake : (dove ++ 47 :: nome).take (dove.length + m + 1) = dove ++ 47 :: nome.take m := by
      rw [Nat.add_assoc, take_length_add_append, take_succ_cons]
    rw [isTake]
    refine .inl ((buono.taglia (.inr ?_)).sotto named)
    rw [← place, Nat.add_assoc, getElem?_append_right (Nat.le_add_right ..),
      Nat.add_sub_cancel_left, getElem?_cons_succ]

theorem creaDa_lecita {perc : List UInt8}
    (cuts : ∀ k, perc[k]? = some 47 → Lecita cwd dove ⟨.mkdir, perc.take k⟩)
    (posti : List Nat) (pre : ∀ o ∈ storia, Lecita cwd dove o) :
    ∀ o ∈ (creaDa mondo perc posti storia).2, Lecita cwd dove o := by
  induction posti generalizing storia with
  | nil => exact pre
  | cons k posti ih =>
    rw [creaDa]
    split
    · exact ih pre
    next slash =>
    have asked := chiedi_lecita mondo pre (cuts k (not_not.mp slash))
    dsimp only
    split
    · exact ih asked
    · exact asked

theorem Buono.creaCartelle (buono : Buono nome) (named : dove ≠ []) (ancheUltimo : Bool)
    (pre : ∀ o ∈ storia, Lecita cwd dove o) :
    ∀ o ∈ (creaCartelle mondo (dove ++ 47 :: nome) ancheUltimo storia).2, Lecita cwd dove o := by
  have made := creaDa_lecita mondo (fun k slash => buono.cartella named slash)
    (range' 1 ((dove ++ 47 :: nome).length - 1)) pre
  rw [Extar.creaCartelle]
  split
  · exact poi_lecita mondo made (.inl (buono.sotto named))
  · exact made

/-- Slashes are taken away from the end of the name only: it does not begin with one. -/
theorem Buono.senzaBarre (buono : Buono nome) (dove : List UInt8) (m : Nat)
    (place : nome.length ≤ m ∨ nome[m]? = some 47) :
    ∃ q, Buono q ∧ senzaBarre (dove ++ 47 :: nome) (dove.length + 1 + m) = dove ++ 47 :: q := by
  have whole : ∀ m, (dove ++ 47 :: nome).take (dove.length + 1 + m) = dove ++ 47 :: nome.take m :=
    fun m => by
    rw [Nat.add_assoc, take_length_add_append, Nat.add_comm, take_succ_cons]
  induction m with
  | zero =>
    obtain ⟨c, resto, isSplit, ne, _⟩ := buono.taglia place
    exact absurd (cons.inj isSplit).1.symm ne
  | succ m ih =>
    rw [show dove.length + 1 + (m + 1) = dove.length + m + 2 by omega, Extar.senzaBarre]
    split
    · next slash =>
      rw [Nat.add_right_comm, getElem?_append_right (by omega), Nat.add_assoc,
        Nat.add_sub_cancel_left, Nat.add_comm] at slash
      rw [Nat.add_right_comm]
      exact ih (.inr slash)
    · exact ⟨_, buono.taglia place, by rw [← whole]; congr 1; omega⟩

theorem Buono.estrai (buono : Buono nome) (named : dove ≠ []) {v : Voce}
    (pre : ∀ o ∈ storia, Lecita cwd dove o) :
    ∀ o ∈ (exTarEstrai mondo v (dove ++ 47 :: nome) storia).2, Lecita cwd dove o := by
  rw [exTarEstrai]
  split
  · obtain ⟨q, good, isQ⟩ := buono.senzaBarre dove nome.length (.inl (Nat.le_refl _))
    rw [length_append, length_cons, Nat.add_comm nome.length, ← Nat.add_assoc, isQ]
    exact good.creaCartelle mondo named true pre
  split
  · have here : ∀ atto, Lecita cwd dove ⟨atto, dove ++ 47 :: nome⟩ := fun _ =>
      .inl (buono.sotto named)
    have isOpen := chiedi_lecita mondo (buono.creaCartelle mondo named false pre) (here .apri)
    have written := poi_lecita mondo isOpen (here .scrivi)
    split
    · exact poi_lecita mondo written (here .chmod)
    · exact written
  · exact pre

/-- Whatever the archive is, its files are opened and written below the destination, and a directory
made elsewhere is the destination or on the way to it. -/
theorem estrazione_sotto (cwd : List (List UInt8)) {d : List UInt8} {giri : Nat} {r : Indice}
    (made : indicizza giri d = some r) {dove : List UInt8} (named : dove ≠ []) :
    ∀ o ∈ (exTarEstraiTutto mondo r.voci dove).2, Lecita cwd dove o := by
  suffices runs : ∀ voci : List Voce, (∀ v ∈ voci, Elencato v.nome) → ∀ s : Nat × List Operazione,
      (∀ o ∈ s.2, Lecita cwd dove o) →
      ∀ o ∈ (voci.foldl (estraiVoce mondo dove) s).2, Lecita cwd dove o from
    runs r.voci (fun v mem => (indicizza_voci made v mem).2) (0, []) fun o absent =>
      absurd absent not_mem_nil
  intro voci
  induction voci with
  | nil => exact fun _ _ pre => pre
  | cons v voci ih =>
    intro listed s pre
    refine ih (fun w mem => listed w (mem_cons_of_mem v mem)) _ ?_
    rw [estraiVoce]
    split
    · exact pre
    · next notEnd =>
      have safe := Bool.eq_true_of_not_eq_false (not_or.mp notEnd).1
      exact ((listed v mem_cons_self).buono safe).estrai mondo named pre

end Asked

/-- An archive with one empty file, and the directory "/d". -/
def archivioUno : List UInt8 := testa 48 [48] [49, 48, 52, 51]

/-- A file of three bytes, and an empty one whose long name is "../x". -/
def archivioDue : List UInt8 :=
  testa 48 [51] [49, 48, 52, 54] ++ [1, 2, 3] ++ replicate 509 0 ++
    testa 76 [52] [49, 49, 48, 51] ++ [46, 46, 47, 120] ++ replicate 508 0 ++ archivioUno

/-- Both are listed, and the first is written. -/
theorem estrazione_due : ∃ r, indicizza 9 archivioDue = some r ∧
    r.voci.map Voce.nome = [[97, 98], [46, 46, 47, 120]] ∧
    (∃ o ∈ (exTarEstraiTutto (fun _ => true) r.voci [47, 100]).2,
      o.percorso = [47, 100, 47, 97, 98]) ∧
    ∀ o ∈ (exTarEstraiTutto (fun _ => true) r.voci [47, 100]).2, Lecita [] [47, 100] o := by
  have asked : ((indicizza 9 archivioDue).map fun r => (r.voci.map Voce.nome,
      (exTarEstraiTutto (fun _ => true) r.voci [47, 100]).2.any
        (·.percorso = [47, 100, 47, 97, 98]))) = some ([[97, 98], [46, 46, 47, 120]], true) := by
    decide +kernel
  obtain ⟨r, made, both⟩ := Option.map_eq_some_iff.mp asked
  obtain ⟨o, member, isFile⟩ := any_eq_true.mp (Prod.mk.inj both).2
  exact ⟨r, made, (Prod.mk.inj both).1, ⟨o, member, of_decide_eq_true isFile⟩,
    estrazione_sotto _ [] made (by decide)⟩

/-- The destination itself is made, which is not below it. -/
theorem estrazione_destinazione : ¬∀ r, indicizza 3 archivioUno = some r →
    ∀ o ∈ (exTarEstraiTutto (fun _ => true) r.voci [47, 100]).2, Sotto [] [47, 100] o.percorso := by
  intro all
  have asked : ((indicizza 3 archivioUno).map fun r =>
      (exTarEstraiTutto (fun _ => true) r.voci [47, 100]).2.any (·.percorso = [47, 100])) =
        some true := by
    decide +kernel
  obtain ⟨r, made, made'⟩ := Option.map_eq_some_iff.mp asked
  obtain ⟨o, mem, isDove⟩ := any_eq_true.mp made'
  obtain ⟨resto, ne, same⟩ := all r made o mem
  rw [of_decide_eq_true isDove] at same
  exact ne (self_eq_append_right.mp same)

end ExOs.Extar
