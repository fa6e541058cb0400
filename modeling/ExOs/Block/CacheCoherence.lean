import ExOs.Block.BlockCache

/-!
# The caches follow the disks

A cache is coherent with a state of the disks when its hash table is well
formed and every live entry holds what the disks hold under its key.  Each
operation of `BlockCache` keeps this: with the same disks when it moves copies
around, with those a write leaves when it follows one.
-/

namespace ExOs.Block.Blk

open ExOs.Library List Function Buffer

variable {Settore : Type} {dischi : Nat → Nat → Settore} {src : Nat → Settore}

theorem scriviDischi_inside {disco abs n lba : Nat} (lower : abs ≤ lba) (upper : lba < abs + n) :
    scriviDischi dischi disco abs src n disco lba = src (lba - abs) := by
  rw [scriviDischi, update_self, copy_inside lower upper, Nat.zero_add]

theorem scriviDischi_outside {disco disco' abs n lba : Nat}
    (out : disco' ≠ disco ∨ lba < abs ∨ abs + n ≤ lba) :
    scriviDischi dischi disco abs src n disco' lba = dischi disco' lba := by
  unfold scriviDischi
  by_cases same : disco' = disco
  · rw [same, update_self, copy_outside]
    rcases out with ne | pos
    · exact absurd same ne
    · exact pos
  · rw [update_of_ne same]

theorem scriviDischi_append (dischi : Nat → Nat → Settore)
    (disco abs q m : Nat) (src : Nat → Settore) :
    scriviDischi (scriviDischi dischi disco abs src q) disco (abs + q) (fun k => src (k + q)) m =
      scriviDischi dischi disco abs src (q + m) := by
  have later : ∀ buf, copy buf (abs + q) (fun k => src (k + q)) 0 m =
      copy buf (abs + q) src (0 + q) m :=
    fun buf => copy_congr fun j _ => congrArg src (by omega)
  rw [scriviDischi, scriviDischi, scriviDischi, update_self, update_idem, later, copy_append]

theorem scriviDischi_zero {disco abs : Nat} : scriviDischi dischi disco abs src 0 = dischi := by
  funext disco' lba
  rw [scriviDischi_outside (by omega)]

/-! ## The sector cache -/

structure CacheCoerente (cache : CacheSettori Settore) (dischi : Nat → Nat → Settore) : Prop where
  formata : ∃ catene, cache.tavola.WellFormed secchio cacheVoci catene
  fedele : ∀ k chiave, cache.tavola.key k = some chiave → cache.dati k = dischi chiave.1 chiave.2

namespace CacheCoerente

variable {cache : CacheSettori Settore} {dischi : Nat → Nat → Settore}

section

variable (inv : CacheCoerente cache dischi)

include inv

theorem cacheTrova_eq_some_iff (chiave : Chiave) {k : Nat} :
    cacheTrova cache chiave = some k ↔ cache.tavola.key k = some chiave := by
  obtain ⟨catene, formata⟩ := inv.formata
  exact formata.findFrom_eq_some_iff

theorem cacheTrova_none {chiave : Chiave} (missing : cacheTrova cache chiave = none) :
    ∀ k, cache.tavola.key k ≠ some chiave := by
  obtain ⟨catene, formata⟩ := inv.formata
  exact formata.findFrom_eq_none missing

theorem key_cacheStacca (k i : Nat) :
    (cacheStacca cache k).tavola.key i = if i = k then none else cache.tavola.key i := by
  obtain ⟨catene, formata⟩ := inv.formata
  unfold cacheStacca
  cases live : cache.tavola.key k with
  | none =>
    by_cases same : i = k
    · rw [if_pos same, same, live]
    · rw [if_neg same]
  | some chiave => exact formata.unlink_key live i

theorem stacca (k : Nat) : CacheCoerente (cacheStacca cache k) dischi := by
  have keys := inv.key_cacheStacca k
  refine ⟨?_, ?_⟩
  · obtain ⟨catene, formata⟩ := inv.formata
    unfold cacheStacca
    cases live : cache.tavola.key k with
    | none => exact ⟨catene, formata⟩
    | some chiave =>
      have cleared := formata.unlink live
      refine ⟨_, cleared.congr rfl rfl ?_⟩
      intro index key indexLive
      have ne : index ≠ k := by
        intro equal
        rw [equal, BucketTable.setKey] at indexLive
        simp at indexLive
      exact update_of_ne ne ..
  · intro i chiave live
    rw [keys i] at live
    have same : (cacheStacca cache k).dati = cache.dati := by
      unfold cacheStacca
      split <;> rfl
    rw [same]
    exact inv.fedele i chiave (Option.ite_none_left_eq_some.mp live).2

end

theorem cacheSlotDa_bounds (cache : CacheSettori Settore) : ∀ (restanti k migliore : Nat),
      k + restanti = cacheVoci → migliore < cacheVoci →
      match cacheSlotDa cache restanti k migliore with
      | .inl libera => cache.tavola.key libera = none ∧ libera < cacheVoci
      | .inr vecchia => vecchia < cacheVoci := by
  intro restanti
  induction restanti with
  | zero =>
    intro k migliore _ small
    exact small
  | succ restanti ih =>
    intro k migliore total small
    rw [cacheSlotDa]
    by_cases free : cache.tavola.key k = none
    · rw [if_pos free]
      exact ⟨free, by omega⟩
    rw [if_neg free]
    apply ih (k + 1) _ (by omega)
    split
    · omega
    · exact small

section

variable (inv : CacheCoerente cache dischi) {dischi' : Nat → Nat → Settore}

include inv

theorem slot : CacheCoerente (cacheSlot cache).1 dischi ∧
      (cacheSlot cache).1.tavola.key (cacheSlot cache).2 = none ∧ (cacheSlot cache).2 < cacheVoci ∧
          ∀ i chiave, (cacheSlot cache).1.tavola.key i = some chiave →
            cache.tavola.key i = some chiave := by
  have bounds := cacheSlotDa_bounds cache cacheVoci 0 0 (Nat.zero_add _) (by decide)
  unfold cacheSlot
  cases found : cacheSlotDa cache cacheVoci 0 0 with
  | inl k =>
    rw [found] at bounds
    exact ⟨inv, bounds.1, bounds.2, fun _ _ live => live⟩
  | inr k =>
    rw [found] at bounds
    have keys := inv.key_cacheStacca k
    refine ⟨inv.stacca k, ?_, bounds, ?_⟩
    · rw [keys, if_pos rfl]
    · intro i chiave live
      rw [keys] at live
      exact (Option.ite_none_left_eq_some.mp live).2

theorem usa {k : Nat} : CacheCoerente (cacheUsa cache k) dischi := ⟨inv.formata, inv.fedele⟩

theorem copia {k : Nat} {chiave : Chiave} (live : cache.tavola.key k = some chiave)
    (agree : ∀ other : Chiave, other ≠ chiave → dischi' other.1 other.2 = dischi other.1 other.2) :
    CacheCoerente (cacheCopia cache k (dischi' chiave.1 chiave.2)) dischi' := by
  refine ⟨inv.formata, ?_⟩
  intro i other otherLive
  have iLive : cache.tavola.key i = some other := otherLive
  show update cache.dati k _ i = _
  by_cases isK : i = k
  · rw [isK, live] at iLive
    rw [isK, update_self, Option.some.inj iLive]
  have ne : other ≠ chiave := by
    intro equal
    obtain ⟨catene, formata⟩ := inv.formata
    exact isK (formata.unique i k chiave (equal ▸ iLive) live)
  rw [update_of_ne isK, agree other ne]
  exact inv.fedele i other iLive

theorem metti (chiave : Chiave) :
    CacheCoerente (cacheMetti cache chiave (dischi chiave.1 chiave.2)) dischi := by
  unfold cacheMetti cacheVoce
  cases found : cacheTrova cache chiave with
  | some k =>
    have live := (inv.cacheTrova_eq_some_iff chiave).mp found
    exact inv.copia live fun _ _ => rfl
  | none =>
    have absent := inv.cacheTrova_none found
    obtain ⟨taken, free, small, subset⟩ := inv.slot
    obtain ⟨catene, formata⟩ := taken.formata
    set k := (cacheSlot cache).2
    refine ⟨⟨_, formata.push free small ?_⟩, ?_⟩
    · intro other otherLive
      exact absent other (subset other chiave otherLive)
    · intro i other otherLive
      have keyEq : update (cacheSlot cache).1.tavola.key k (some chiave) i = some other := otherLive
      by_cases isK : i = k
      · rw [isK, update_self] at keyEq
        rw [isK, ← Option.some.inj keyEq]
        exact update_self ..
      · rw [update_of_ne isK] at keyEq
        rw [← taken.fedele i other keyEq]
        exact update_of_ne isK ..

theorem congr_dischi (agree : ∀ k chiave, cache.tavola.key k = some chiave →
      dischi' chiave.1 chiave.2 = dischi chiave.1 chiave.2) :
    CacheCoerente cache dischi' := by
  refine ⟨inv.formata, ?_⟩
  intro k chiave live
  rw [agree k chiave live]
  exact inv.fedele k chiave live

theorem aggiornaUno
    {disco abs : Nat} :
    CacheCoerente (match cacheTrova cache (disco, abs) with
        | none => cache
        | some k => cacheCopia cache k (src 0))
      (scriviDischi dischi disco abs src 1) := by
  have elsewhere : ∀ chiave : Chiave, chiave ≠ (disco, abs) →
      scriviDischi dischi disco abs src 1 chiave.1 chiave.2 = dischi chiave.1 chiave.2 := by
    intro chiave ne
    apply scriviDischi_outside
    by_cases sameDisk : chiave.1 = disco
    · have otherSector : chiave.2 ≠ abs := fun equal =>
        ne (Prod.ext sameDisk equal)
      omega
    · exact .inl sameDisk
  cases found : cacheTrova cache (disco, abs) with
  | none =>
    have absent := inv.cacheTrova_none found
    exact inv.congr_dischi fun i chiave live =>
      elsewhere chiave fun equal => absent i (equal ▸ live)
  | some k =>
    have live := (inv.cacheTrova_eq_some_iff (disco, abs)).mp found
    have written : scriviDischi dischi disco abs src 1 disco abs = src 0 := by
      rw [scriviDischi_inside (Nat.le_refl abs) (by omega), Nat.sub_self]
    rw [← written]
    exact inv.copia live elsewhere

theorem scartaUno (chiave : Chiave) : CacheCoerente (match cacheTrova cache chiave with
        | none => cache
        | some k => cacheStacca cache k) dischi ∧
      ∀ k other, (match cacheTrova cache chiave with
        | none => cache
        | some k => cacheStacca cache k).tavola.key k = some other →
          cache.tavola.key k = some other ∧ other ≠ chiave := by
  cases found : cacheTrova cache chiave with
  | none =>
    have absent := inv.cacheTrova_none found
    exact ⟨inv, fun k other live => ⟨live, fun equal => absent k (equal ▸ live)⟩⟩
  | some i =>
    have live := (inv.cacheTrova_eq_some_iff chiave).mp found
    obtain ⟨catene, formata⟩ := inv.formata
    exact ⟨inv.stacca i, fun k other => formata.key_of_erased live (inv.key_cacheStacca i)⟩

end

variable (disco : Nat)

theorem aggiorna : ∀ (n : Nat) {cache : CacheSettori Settore}
      {dischi : Nat → Nat → Settore} (abs : Nat) (src : Nat → Settore), CacheCoerente cache dischi →
      CacheCoerente (cacheAggiorna disco n cache abs src)
        (scriviDischi dischi disco abs src n) := by
  intro n
  induction n with
  | zero =>
    intro cache dischi abs src inv
    rw [scriviDischi_zero]
    exact inv
  | succ n ih =>
    intro cache dischi abs src inv
    have pieces := scriviDischi_append dischi disco abs 1 n src
    rw [Nat.add_comm 1 n] at pieces
    rw [← pieces]
    exact ih (abs + 1) (fun k => src (k + 1)) inv.aggiornaUno

theorem scarta : ∀ (n : Nat) {cache : CacheSettori Settore} (abs : Nat),
      CacheCoerente cache dischi → CacheCoerente (cacheScarta disco n cache abs) dischi ∧
        ∀ k chiave, (cacheScarta disco n cache abs).tavola.key k = some chiave →
          cache.tavola.key k = some chiave ∧
            ¬ (chiave.1 = disco ∧ abs ≤ chiave.2 ∧ chiave.2 < abs + n) := by
  intro n
  induction n with
  | zero =>
    intro cache abs inv
    exact ⟨inv, fun k chiave live => ⟨live, by omega⟩⟩
  | succ n ih =>
    intro cache abs inv
    obtain ⟨one, kept⟩ := inv.scartaUno (disco, abs)
    obtain ⟨after, dropped⟩ := ih (abs + 1) one
    refine ⟨after, ?_⟩
    intro k chiave live
    obtain ⟨pre, out⟩ := dropped k chiave live
    obtain ⟨old, other⟩ := kept k chiave pre
    refine ⟨old, fun inside => other (Prod.ext inside.1 ?_)⟩
    omega

theorem svuota (disco : Option Nat) : ∀ (restanti : Nat) {cache : CacheSettori Settore} (k : Nat),
      CacheCoerente cache dischi → CacheCoerente (cacheSvuotaDa disco restanti cache k) dischi := by
  intro restanti
  induction restanti with
  | zero =>
    intro cache k inv
    exact inv
  | succ restanti ih =>
    intro cache k inv
    apply ih
    split
    · exact inv.stacca k
    · exact inv

theorem servi : ∀ (n : Nat) {cache : CacheSettori Settore} (abs : Nat)
      (buf : Nat → Settore) (p : Nat), CacheCoerente cache dischi →
      CacheCoerente (cacheServi disco n cache abs buf p).1 dischi ∧
        ∀ buf', (cacheServi disco n cache abs buf p).2 = some buf' →
          buf' = copy buf p (dischi disco) abs n := by
  intro n
  induction n with
  | zero =>
    intro cache abs buf p inv
    refine ⟨inv, ?_⟩
    intro buf' served
    rw [copy_zero, ← Option.some.inj served]
  | succ n ih =>
    intro cache abs buf p inv
    rw [cacheServi]
    cases found : cacheTrova cache (disco, abs) with
    | none => exact ⟨inv, by simp⟩
    | some k =>
      have live := (inv.cacheTrova_eq_some_iff (disco, abs)).mp found
      have content := inv.fedele k (disco, abs) live
      obtain ⟨after, served⟩ := ih (abs + 1) (update buf p (cache.dati k)) (p + 1) inv.usa
      refine ⟨after, ?_⟩
      intro buf' res
      rw [served buf' res, content, ← copy_one, copy_append, Nat.add_comm]

theorem riempi (buf : Nat → Settore) :
    ∀ (n : Nat) {cache : CacheSettori Settore} (abs p : Nat), CacheCoerente cache dischi →
      (∀ k, k < n → buf (p + k) = dischi disco (abs + k)) →
      CacheCoerente (cacheRiempi disco buf n cache abs p) dischi := by
  intro n
  induction n with
  | zero =>
    intro cache abs p inv _
    exact inv
  | succ n ih =>
    intro cache abs p inv content
    rw [cacheRiempi]
    have fst : buf p = dischi disco abs := content 0 (Nat.succ_pos n)
    rw [fst]
    apply ih (abs + 1) (p + 1) (inv.metti (disco, abs))
    intro k small
    have later := content (k + 1) (by omega)
    rw [Nat.add_assoc, Nat.add_assoc, Nat.add_comm 1 k]
    exact later

end CacheCoerente

/-! ## The page cache -/

/-- The free entries form a list of their own through the same links. -/
structure PcCoerente (pc : CachePagine Settore)
    (dischi : Nat → Nat → Settore) (libere : List Nat) : Prop where
  formata : ∃ catene, pc.tavola.WellFormed (pcSecchio pc.maschera) pc.n catene
  lista : BucketTable.Follow pc.tavola.next pc.libera libere
  nodup : libere.Nodup
  vuote : ∀ k ∈ libere, pc.tavola.key k = none ∧ k < pc.n
  allineata : ∀ k chiave, pc.tavola.key k = some chiave → chiave.2 % pcSett = 0
  fedele : ∀ k chiave, pc.tavola.key k = some chiave →
    ∀ j, j < pcSett → pc.dati k j = dischi chiave.1 (chiave.2 + j)

namespace PcCoerente

variable {pc : CachePagine Settore} {dischi : Nat → Nat → Settore} {libere : List Nat}

section

variable (inv : PcCoerente pc dischi libere)

include inv

theorem pcCerca_eq_some_iff (chiave : Chiave) {k : Nat} :
    pcCerca pc chiave = some k ↔ pc.tavola.key k = some chiave := by
  obtain ⟨catene, formata⟩ := inv.formata
  exact formata.findFrom_eq_some_iff

theorem pcCerca_none {chiave : Chiave} (missing : pcCerca pc chiave = none) :
    ∀ k, pc.tavola.key k ≠ some chiave := by
  obtain ⟨catene, formata⟩ := inv.formata
  exact formata.findFrom_eq_none missing

theorem congr_uso (rif : Nat → Bool) (lancetta usate : Nat) :
    PcCoerente { pc with rif := rif, lancetta := lancetta, usate := usate } dischi libere :=
  { inv with }

theorem key_pcSgancia (k i : Nat) :
    (pcSgancia pc k).tavola.key i = if i = k then none else pc.tavola.key i := by
  obtain ⟨catene, formata⟩ := inv.formata
  unfold pcSgancia
  cases live : pc.tavola.key k with
  | none =>
    by_cases same : i = k
    · rw [if_pos same, same, live]
    · rw [if_neg same]
  | some chiave => exact formata.unlink_key live i

end

theorem pcSgancia_frame (pc : CachePagine Settore) (k : Nat) :
    (pcSgancia pc k).dati = pc.dati ∧ (pcSgancia pc k).n = pc.n ∧
      (pcSgancia pc k).libera = pc.libera := by
  unfold pcSgancia
  split <;> exact ⟨rfl, rfl, rfl⟩

/-- What a new entry must be for a page to be linked in it; `prima` is the
table before it was taken. -/
structure Presa (prima : BucketTable Chiave) (pc' : CachePagine Settore)
    (dischi : Nat → Nat → Settore) (libere : List Nat) (k : Nat) : Prop where
  coerente : PcCoerente pc' dischi libere
  vuota : pc'.tavola.key k = none
  piccola : k < pc'.n
  sciolta : k ∉ libere
  sottoinsieme : ∀ i chiave, pc'.tavola.key i = some chiave → prima.key i = some chiave

theorem paginaDi_spec (abs : Nat) : paginaDi abs % pcSett = 0 ∧ paginaDi abs ≤ abs ∧
      abs < paginaDi abs + pcSett := by
  simp only [paginaDi, pcSett]
  omega

theorem nellaPagina_spec {abs : Nat} {n : Nat} (pos : n ≠ 0) :
    0 < nellaPagina abs n ∧ nellaPagina abs n ≤ n ∧
      abs - paginaDi abs + nellaPagina abs n ≤ pcSett := by
  obtain ⟨_, lower, upper⟩ := paginaDi_spec abs
  unfold nellaPagina
  split <;> omega

section

variable (inv : PcCoerente pc dischi libere) {chiave : Chiave} {dischi' : Nat → Nat → Settore}

include inv

theorem sgancia (k : Nat) : PcCoerente (pcSgancia pc k) dischi libere := by
  have keys := inv.key_pcSgancia k
  obtain ⟨sameData, sameN, sameFree⟩ := pcSgancia_frame pc k
  have subset : ∀ i chiave, (pcSgancia pc k).tavola.key i = some chiave →
      pc.tavola.key i = some chiave := by
    intro i chiave live
    rw [keys] at live
    exact (Option.ite_none_left_eq_some.mp live).2
  refine
    { formata := ?_, lista := ?_, nodup := inv.nodup, vuote := ?_, allineata := ?_, fedele := ?_ }
  · obtain ⟨catene, formata⟩ := inv.formata
    unfold pcSgancia
    cases live : pc.tavola.key k with
    | none => exact ⟨catene, formata⟩
    | some chiave => exact ⟨_, formata.unlink live⟩
  · rw [sameFree]
    refine inv.lista.congr ?_
    intro i mem
    obtain ⟨catene, formata⟩ := inv.formata
    unfold pcSgancia
    cases live : pc.tavola.key k with
    | none => rfl
    | some chiave =>
      exact (formata.bypass_frame live).2 i (.inl (inv.vuote i mem).1)
  · intro i mem
    rw [keys, sameN]
    refine ⟨?_, (inv.vuote i mem).2⟩
    split
    · rfl
    · exact (inv.vuote i mem).1
  · intro i chiave live
    exact inv.allineata i chiave (subset i chiave live)
  · intro i chiave live
    rw [sameData]
    exact inv.fedele i chiave (subset i chiave live)

theorem libera {k : Nat} (live : pc.tavola.key k = some chiave) :
    PcCoerente (pcLibera pc k) dischi (k :: libere) ∧
      ∀ i, (pcLibera pc k).tavola.key i = if i = k then none else pc.tavola.key i := by
  have unlinked := inv.sgancia k
  have keys := inv.key_pcSgancia k
  have sameN := (pcSgancia_frame pc k).2.1
  have notListed : k ∉ libere := by
    intro mem
    rw [(inv.vuote k mem).1] at live
    exact absurd live (by simp)
  refine ⟨?_, keys⟩
  refine
    { formata := ?_, lista := ?_, nodup := ?_, vuote := ?_,
      allineata := unlinked.allineata, fedele := unlinked.fedele }
  · obtain ⟨catene, formata⟩ := unlinked.formata
    refine ⟨catene, formata.congr rfl rfl ?_⟩
    intro index key indexLive
    have ne : index ≠ k := by
      intro equal
      rw [equal, keys] at indexLive
      exact absurd indexLive (by simp)
    exact update_of_ne ne ..
  · refine ⟨rfl, ?_⟩
    have ownLink : (pcLibera pc k).tavola.next k = (pcSgancia pc k).libera := update_self ..
    rw [ownLink]
    refine unlinked.lista.congr ?_
    intro i mem
    have ne : i ≠ k := fun equal => notListed (equal ▸ mem)
    exact update_of_ne ne ..
  · exact nodup_cons.mpr ⟨notListed, inv.nodup⟩
  · intro i mem
    rcases mem_cons.mp mem with isK | listed
    · obtain ⟨catene, formata⟩ := inv.formata
      rw [isK]
      refine ⟨?_, ?_⟩
      · rw [show (pcLibera pc k).tavola.key k = _ from keys k, if_pos rfl]
      · rw [show (pcLibera pc k).n = pc.n from sameN]
        exact formata.bounded k chiave live
    · exact unlinked.vuote i listed

omit inv in
theorem lancetta (passi : Nat) : ∀ {pc : CachePagine Settore}, PcCoerente pc dischi libere →
      match pcLancetta passi pc with
      | (pc', none) => PcCoerente pc' dischi libere
      | (pc', some k) => Presa pc.tavola pc' dischi libere k := by
  induction passi with
  | zero =>
    intro pc inv
    exact inv
  | succ passi ih =>
    intro pc inv
    rw [pcLancetta]
    set next := if pc.lancetta + 1 < pc.n then pc.lancetta + 1 else 0
    have moved := inv.congr_uso pc.rif next pc.usate
    by_cases free : pc.tavola.key pc.lancetta = none
    · rw [if_pos free]
      exact ih moved
    rw [if_neg free]
    by_cases referenced : pc.rif pc.lancetta = true
    · rw [if_pos referenced]
      exact ih (moved.congr_uso (update pc.rif pc.lancetta false) next pc.usate)
    rw [if_neg referenced]
    obtain ⟨chiave, live⟩ := Option.ne_none_iff_exists'.mp free
    have keys := moved.key_pcSgancia pc.lancetta
    have sameN := (pcSgancia_frame { pc with lancetta := next } pc.lancetta).2.1
    refine ⟨moved.sgancia pc.lancetta, ?_, ?_, ?_, ?_⟩
    · rw [keys, if_pos rfl]
    · obtain ⟨catene, formata⟩ := inv.formata
      rw [sameN]
      exact formata.bounded pc.lancetta chiave live
    · intro mem
      exact free (inv.vuote pc.lancetta mem).1
    · intro i other otherLive
      rw [keys] at otherLive
      exact (Option.ite_none_left_eq_some.mp otherLive).2

theorem nuova (ram : Bool) : ∃ libere',
      match pcNuova pc ram with
      | (pc', none) => PcCoerente pc' dischi libere'
      | (pc', some k) => Presa pc.tavola pc' dischi libere' k := by
  have clock : ∃ libere', match (if pc.usate = 0 then (pc, none) else pcLancetta 8192 pc) with
      | (pc', none) => PcCoerente pc' dischi libere'
      | (pc', some k) => Presa pc.tavola pc' dischi libere' k := by
    refine ⟨libere, ?_⟩
    by_cases empty : pc.usate = 0
    · rw [if_pos empty]
      exact inv
    · rw [if_neg empty]
      exact lancetta 8192 inv
  unfold pcNuova
  cases ram with
  | false => exact clock
  | true =>
    cases free : pc.libera with
    | none => exact clock
    | some k =>
      -- The head of the free list is popped.
      cases libere with
      | nil =>
        have ended : pc.libera = none := inv.lista
        rw [free] at ended
        exact absurd ended (by simp)
      | cons fst rest =>
        obtain ⟨atHead, tail⟩ := inv.lista
        rw [free] at atHead
        have isFirst : fst = k := (Option.some.inj atHead).symm
        subst isFirst
        obtain ⟨notRest, restNodup⟩ := nodup_cons.mp inv.nodup
        have firstFree := inv.vuote fst (mem_cons_self)
        have others := fun i mem => inv.vuote i (mem_cons_of_mem fst mem)
        exact ⟨rest, { inv with lista := tail, nodup := restNodup, vuote := others },
          firstFree.1, firstFree.2, notRest, fun _ _ live => live⟩

theorem congr_dischi (agree : ∀ k chiave, pc.tavola.key k = some chiave → ∀ j, j < pcSett →
        dischi' chiave.1 (chiave.2 + j) = dischi chiave.1 (chiave.2 + j)) :
    PcCoerente pc dischi' libere := by
  refine { inv with fedele := ?_ }
  intro k chiave live j small
  rw [agree k chiave live j small]
  exact inv.fedele k chiave live j small

theorem copiaPagina {k : Nat} {pagina : Nat → Settore} (live : pc.tavola.key k = some chiave)
    (page : ∀ j, j < pcSett → pagina j = dischi' chiave.1 (chiave.2 + j))
    (agree : ∀ i other, pc.tavola.key i = some other → other ≠ chiave → ∀ j, j < pcSett →
      dischi' other.1 (other.2 + j) = dischi other.1 (other.2 + j)) :
    PcCoerente { pc with dati := update pc.dati k pagina } dischi' libere := by
  refine { inv with fedele := ?_ }
  intro i other otherLive j small
  have iLive : pc.tavola.key i = some other := otherLive
  by_cases isK : i = k
  · rw [isK, live] at iLive
    rw [isK, ← Option.some.inj iLive]
    simp only [update_self]
    exact page j small
  have ne : other ≠ chiave := by
    intro equal
    obtain ⟨catene, formata⟩ := inv.formata
    exact isK (formata.unique i k chiave (equal ▸ iLive) live)
  simp only [update_of_ne isK]
  rw [agree i other iLive ne j small]
  exact inv.fedele i other iLive j small

theorem mettiRimbalzo {ram : Bool} {t : Nat → Settore} (aligned : chiave.2 % pcSett = 0)
    (content : ∀ j, j < pcSett → t j = dischi chiave.1 (chiave.2 + j)) :
    ∃ libere', PcCoerente (pcMettiRimbalzo pc ram chiave t) dischi libere' := by
  have page : ∀ old : Nat → Settore, ∀ j, j < pcSett →
      copy old 0 t 0 pcSett j = dischi chiave.1 (chiave.2 + j) := by
    intro old j small
    rw [copy_inside (Nat.zero_le j) (by omega), ← content j small]
    congr 1
    omega
  unfold pcMettiRimbalzo pcVoce
  cases found : pcCerca pc chiave with
  | some k =>
    have live := (inv.pcCerca_eq_some_iff chiave).mp found
    exact ⟨libere, (inv.copiaPagina live (page (pc.dati k)) fun _ _ _ _ _ _ => rfl).congr_uso _ _ _⟩
  | none =>
    have absent := inv.pcCerca_none found
    obtain ⟨libere', taken⟩ := inv.nuova ram
    cases res : pcNuova pc ram with
    | mk pc' slot =>
      rw [res] at taken
      cases slot with
      | none => exact ⟨libere', taken⟩
      | some k =>
        have presa : Presa pc.tavola pc' dischi libere' k := taken
        obtain ⟨catene, formata⟩ := presa.coerente.formata
        have linked := formata.push presa.vuota presa.piccola
          (fun i live => absent i (presa.sottoinsieme i chiave live))
        have keyCases : ∀ i other, update pc'.tavola.key k (some chiave) i = some other →
              (i = k ∧ other = chiave) ∨ (i ≠ k ∧ pc'.tavola.key i = some other) := by
          intro i other live
          by_cases isK : i = k
          · rw [isK, update_self] at live
            exact .inl ⟨isK, (Option.some.inj live).symm⟩
          · rw [update_of_ne isK] at live
            exact .inr ⟨isK, live⟩
        refine ⟨libere',
          { formata := ⟨_, linked⟩, lista := ?_, nodup := presa.coerente.nodup, vuote := ?_,
            allineata := ?_, fedele := ?_ }⟩
        · refine presa.coerente.lista.congr ?_
          intro i mem
          have ne : i ≠ k := fun equal =>
            presa.sciolta (equal ▸ mem)
          exact update_of_ne ne ..
        · intro i mem
          have ne : i ≠ k := fun equal =>
            presa.sciolta (equal ▸ mem)
          refine ⟨?_, (presa.coerente.vuote i mem).2⟩
          rw [← (presa.coerente.vuote i mem).1]
          exact update_of_ne ne ..
        · intro i other live
          rcases keyCases i other live with ⟨_, isNew⟩ | ⟨_, old⟩
          · rw [isNew]
            exact aligned
          · exact presa.coerente.allineata i other old
        · intro i other live j small
          rcases keyCases i other live with ⟨isK, isNew⟩ | ⟨notK, old⟩
          · rw [isK, isNew]
            simp only [update_self]
            exact page (pc'.dati k) j small
          · simp only [update_of_ne notK]
            exact presa.coerente.fedele i other old j small

theorem aggiornaPagina (disco : Nat) {pag off q : Nat} (src : Nat → Settore)
    (aligned : pag % pcSett = 0) (le : off + q ≤ pcSett) :
    PcCoerente (pcAggiornaPagina pc (disco, pag) off q src)
      (scriviDischi dischi disco (pag + off) src q) libere := by
  have otherPage : ∀ k chiave, pc.tavola.key k = some chiave →
      chiave ≠ (disco, pag) → ∀ j, j < pcSett →
        scriviDischi dischi disco (pag + off) src q chiave.1 (chiave.2 + j) =
          dischi chiave.1 (chiave.2 + j) := by
    intro k chiave live ne j small
    apply scriviDischi_outside
    by_cases sameDisk : chiave.1 = disco
    · have otherPage : chiave.2 ≠ pag := fun equal =>
        ne (Prod.ext sameDisk equal)
      have otherAligned := inv.allineata k chiave live
      simp only [pcSett] at *
      omega
    · exact .inl sameDisk
  unfold pcAggiornaPagina
  cases found : pcCerca pc (disco, pag) with
  | none =>
    have absent := inv.pcCerca_none found
    exact inv.congr_dischi fun k chiave live =>
      otherPage k chiave live fun equal => absent k (equal ▸ live)
  | some k =>
    have live := (inv.pcCerca_eq_some_iff (disco, pag)).mp found
    refine inv.copiaPagina live (fun j small => ?_) otherPage
    by_cases written : off ≤ j ∧ j < off + q
    · rw [copy_inside written.1 written.2, scriviDischi_inside (by omega) (by omega)]
      congr 1
      omega
    · rw [copy_outside (by omega), scriviDischi_outside (by omega)]
      exact inv.fedele k (disco, pag) live j small

theorem scartaUna (chiave : Chiave) :
    ∃ libere', PcCoerente (match pcCerca pc chiave with
        | none => pc
        | some k => pcLibera pc k) dischi libere' ∧
      ∀ k other, (match pcCerca pc chiave with
        | none => pc
        | some k => pcLibera pc k).tavola.key k = some other →
          pc.tavola.key k = some other ∧ other ≠ chiave := by
  cases found : pcCerca pc chiave with
  | none =>
    have absent := inv.pcCerca_none found
    exact ⟨libere, inv, fun k other live => ⟨live, fun equal => absent k (equal ▸ live)⟩⟩
  | some i =>
    have live := (inv.pcCerca_eq_some_iff chiave).mp found
    obtain ⟨freed, keys⟩ := inv.libera live
    obtain ⟨catene, formata⟩ := inv.formata
    exact ⟨_, freed, fun k other => formata.key_of_erased live keys⟩

theorem copia {disco pag off q p : Nat} {buf buf' : Nat → Settore}
    {pc' : CachePagine Settore} (le : off + q ≤ pcSett)
    (served : pcCopia pc (disco, pag) off q buf p = some (pc', buf')) :
    PcCoerente pc' dischi libere ∧ buf' = copy buf p (dischi disco) (pag + off) q := by
  unfold pcCopia at served
  cases found : pcCerca pc (disco, pag) with
  | none =>
    rw [found] at served
    exact absurd served (by simp)
  | some k =>
    have live := (inv.pcCerca_eq_some_iff (disco, pag)).mp found
    rw [found] at served
    obtain ⟨samePc, sameBuf⟩ := Prod.mk.inj (Option.some.inj served)
    refine ⟨?_, ?_⟩
    · rw [← samePc]
      exact inv.congr_uso _ pc.lancetta pc.usate
    · rw [← sameBuf]
      refine copy_congr fun j le => ?_
      rw [inv.fedele k (disco, pag) live _ (by omega), Nat.add_assoc]

end

theorem aggiorna (disco giri : Nat) : ∀ {pc : CachePagine Settore} {dischi : Nat → Nat → Settore}
      (abs n : Nat) (src : Nat → Settore), n ≤ giri → PcCoerente pc dischi libere →
      PcCoerente (pcAggiornaDa disco giri pc abs n src)
        (scriviDischi dischi disco abs src n) libere := by
  induction giri with
  | zero =>
    intro pc dischi abs n src enough inv
    rw [Nat.le_zero.mp enough, scriviDischi_zero]
    exact inv
  | succ giri ih =>
    intro pc dischi abs n src enough inv
    rw [pcAggiornaDa]
    split
    · next done =>
      rw [done, scriviDischi_zero]
      exact inv
    rename_i done
    obtain ⟨pos, short, le⟩ := nellaPagina_spec done
    obtain ⟨aligned, lower, _⟩ := paginaDi_spec abs
    have piece := inv.aggiornaPagina disco src aligned le
    rw [Nat.add_sub_cancel' lower] at piece
    have rest := ih (abs + nellaPagina abs n) (n - nellaPagina abs n)
        (fun k => src (k + nellaPagina abs n)) (by omega) piece
    rw [scriviDischi_append, Nat.add_sub_cancel' short] at rest
    exact rest

theorem scarta (disco fine giri : Nat) :
    ∀ {pc : CachePagine Settore} {libere : List Nat} (pag : Nat), PcCoerente pc dischi libere →
      pag % pcSett = 0 → fine ≤ pag + giri * pcSett →
      ∃ libere', PcCoerente (pcScartaDa disco fine giri pc pag) dischi libere' ∧ ∀ k chiave,
            (pcScartaDa disco fine giri pc pag).tavola.key k = some chiave →
              pc.tavola.key k = some chiave ∧
                ¬ (chiave.1 = disco ∧ pag ≤ chiave.2 ∧ chiave.2 < fine) := by
  induction giri with
  | zero =>
    intro pc libere pag inv _ enough
    exact ⟨libere, inv, fun k chiave live => ⟨live, by omega⟩⟩
  | succ giri ih =>
    intro pc libere pag inv aligned enough
    rw [pcScartaDa]
    split
    · have nextAligned : (pag + pcSett) % pcSett = 0 := by
        rw [Nat.add_mod_right]
        exact aligned
      have nextEnough : fine ≤ pag + pcSett + giri * pcSett := by
        rw [Nat.succ_mul] at enough
        omega
      obtain ⟨rest, one, kept⟩ := inv.scartaUna (disco, pag)
      obtain ⟨libere', after, dropped⟩ := ih (pag + pcSett) one nextAligned nextEnough
      refine ⟨libere', after, ?_⟩
      intro k chiave live
      obtain ⟨pre, out⟩ := dropped k chiave live
      obtain ⟨old, other⟩ := kept k chiave pre
      refine ⟨old, fun inside => other (Prod.ext inside.1 ?_)⟩
      have keyAligned := inv.allineata k chiave old
      simp only [pcSett] at *
      omega
    · exact ⟨libere, inv, fun k chiave live => ⟨live, by omega⟩⟩

theorem cedi {k : Nat} : ∀ {pc : CachePagine Settore} {libere : List Nat} (dati : Nat),
      PcCoerente pc dischi libere → ∃ libere', PcCoerente (pcCedi k dati pc) dischi libere' := by
  induction k with
  | zero =>
    intro pc libere dati inv
    exact ⟨libere, inv⟩
  | succ k ih =>
    intro pc libere dati inv
    cases dati with
    | zero => exact ⟨libere, inv⟩
    | succ dati =>
      rw [pcCedi]
      split
      · exact ⟨libere, inv⟩
      set next := if pc.lancetta + 1 < pc.n then pc.lancetta + 1 else 0
      have moved := inv.congr_uso pc.rif next pc.usate
      by_cases free : pc.tavola.key pc.lancetta = none
      · rw [if_pos free]
        exact ih (dati + 1) moved
      · rw [if_neg free]
        obtain ⟨chiave, live⟩ := Option.ne_none_iff_exists'.mp free
        exact ih dati (moved.libera live).1

theorem svuota (disco : Option Nat) (restanti : Nat) :
    ∀ {pc : CachePagine Settore} {libere : List Nat} (i : Nat), PcCoerente pc dischi libere →
      ∃ libere', PcCoerente (pcSvuotaDa disco restanti pc i) dischi libere' := by
  induction restanti with
  | zero =>
    intro pc libere i inv
    exact ⟨libere, inv⟩
  | succ restanti ih =>
    intro pc libere i inv
    rw [pcSvuotaDa]
    cases content : pc.tavola.key i with
    | none => exact ih (i + 1) inv
    | some chiave =>
      split
      · exact ih (i + 1) (inv.libera content).1
      · exact ih (i + 1) inv

end PcCoerente

end ExOs.Block.Blk
