import ExOs.Library.Buffers
import ExOs.Library.BucketTables
import Mathlib.Algebra.Ring.Nat

/-!
# The block layer and its three caches

The ATA path of `kernel/block/blk.c`: the cache of 512-byte sectors, the cache
of 4 KB pages and the read-ahead window, keyed by disk and absolute sector,
over disks that are maps from sectors to contents of any type; a page is eight
of them.  `traduci` keeps every address below the end of a device, so the
64-bit sums after it do not wrap.  Whether an ATA command succeeds and whether
memory has a free page are oracles, consumed one answer at a time.
-/

namespace ExOs.Block.Blk

open ExOs.Library Function

variable {Settore : Type}

/-- The key of a cache entry: the disk and the absolute sector. -/
abbrev Chiave := Nat × Nat

/-! ## The sector cache -/

def cacheVoci : Nat := 2048

def cacheSecchi : Nat := 1024

def cacheMaxN : Nat := 8

/-- `VoceCache`, array by array; a free entry, `disco = -1`, has no key. -/
structure CacheSettori (Settore : Type) where
  tavola : BucketTable Chiave
  uso : Nat → Nat
  dati : Nat → Settore
  orologio : Nat

def secchio (chiave : Chiave) : Nat :=
  (chiave.2 % 2 ^ 32 ^^^ chiave.2 / 2 ^ 32 % 2 ^ 32 * 31 % 2 ^ 32 ^^^
    chiave.1 * 2 ^ 9 % 2 ^ 32) % cacheSecchi

variable (cache : CacheSettori Settore)

def cacheTrova (chiave : Chiave) : Option Nat :=
  cache.tavola.findFrom chiave (cacheVoci + 1) (cache.tavola.head (secchio chiave))

/-- `cache_stacca`, called on live entries only. -/
def cacheStacca (k : Nat) : CacheSettori Settore :=
  match cache.tavola.key k with
  | none => cache
  | some chiave =>
    let tavola := (cache.tavola.bypass (cacheVoci + 1) (secchio chiave) k).setKey k none
    { cache with
      tavola := { tavola with next := update tavola.next k none } }

/-- The scan of `cache_slot`: the first free entry, or else the one used
least recently. -/
def cacheSlotDa (cache : CacheSettori Settore) : Nat → Nat → Nat → Nat ⊕ Nat
  | 0, _, migliore => .inr migliore
  | restanti + 1, k, migliore =>
    if cache.tavola.key k = none then .inl k
    else
      cacheSlotDa cache restanti (k + 1) (if cache.uso k < cache.uso migliore then k else migliore)

def cacheSlot : CacheSettori Settore × Nat :=
  match cacheSlotDa cache cacheVoci 0 0 with
  | .inl k => (cache, k)
  | .inr migliore => (cacheStacca cache migliore, migliore)

/-- The entry a sector goes to: its own, or a new one linked in its bucket. -/
def cacheVoce (chiave : Chiave) : CacheSettori Settore × Nat :=
  match cacheTrova cache chiave with
  | some k => (cache, k)
  | none =>
    let preso := cacheSlot cache
    ({ preso.1 with
        tavola := preso.1.tavola.push (secchio chiave) preso.2 chiave },
      preso.2)

/-- A use of entry `k`: the clock advances. -/
def cacheUsa (k : Nat) : CacheSettori Settore :=
  let ora := (cache.orologio + 1) % 2 ^ 32
  { cache with uso := update cache.uso k ora, orologio := ora }

def cacheCopia (k : Nat) (dati : Settore) : CacheSettori Settore :=
  cacheUsa { cache with dati := update cache.dati k dati } k

def cacheMetti (chiave : Chiave) (dati : Settore) : CacheSettori Settore :=
  let voce := cacheVoce cache chiave
  cacheCopia voce.1 voce.2 dati

/-- The loop of `blk_write` after a good command: the sectors already in the
cache follow the disk. -/
def cacheAggiorna (disco : Nat) :
    Nat → CacheSettori Settore → Nat → (Nat → Settore) → CacheSettori Settore
  | 0, cache, _, _ => cache
  | n + 1, cache, abs, src =>
    let cache' :=
      match cacheTrova cache (disco, abs) with
      | none => cache
      | some k => cacheCopia cache k (src 0)
    cacheAggiorna disco n cache' (abs + 1) fun k => src (k + 1)

/-- The loop of `blk_write` after a failed command: no copy is known to be
right. -/
def cacheScarta (disco : Nat) : Nat → CacheSettori Settore → Nat → CacheSettori Settore
  | 0, cache, _ => cache
  | n + 1, cache, abs =>
    let cache' :=
      match cacheTrova cache (disco, abs) with
      | none => cache
      | some k => cacheStacca cache k
    cacheScarta disco n cache' (abs + 1)

/-- Whether `cache_svuota(disco)` drops an entry; a negative disk, `none`
here, means all of them. -/
def daSvuotare (disco : Option Nat) : Option Chiave → Bool
  | none => false
  | some chiave => disco = none || disco = some chiave.1

def cacheSvuotaDa (disco : Option Nat) : Nat → CacheSettori Settore → Nat → CacheSettori Settore
  | 0, cache, _ => cache
  | restanti + 1, cache, k =>
    let cache' :=
      if daSvuotare disco (cache.tavola.key k) then cacheStacca cache k
      else cache
    cacheSvuotaDa disco restanti cache' (k + 1)

/-! ## The page cache -/

def pcSett : Nat := 8

/-- `VocePag`, array by array, and the globals of the page cache.  The page
of physical memory an entry owns is its `dati`. -/
structure CachePagine (Settore : Type) where
  tavola : BucketTable Chiave
  rif : Nat → Bool
  dati : Nat → Nat → Settore
  n : Nat
  maschera : Nat
  lancetta : Nat
  usate : Nat
  libera : Option Nat

def pcSecchio (maschera : Nat) (chiave : Chiave) : Nat :=
  let x := chiave.2 / 2 ^ 3 ^^^ chiave.2 / 2 ^ 17 ^^^ chiave.1 * 2 ^ 24
  x % 2 ^ 32 * 2654435761 % 2 ^ 32 / 2 ^ 7 &&& maschera

def pcCerca (pc : CachePagine Settore) (chiave : Chiave) : Option Nat :=
  pc.tavola.findFrom chiave (pc.n + 1) (pc.tavola.head (pcSecchio pc.maschera chiave))

/-- `pc_sgancia`, called on live entries only. -/
def pcSgancia (pc : CachePagine Settore) (k : Nat) : CachePagine Settore :=
  match pc.tavola.key k with
  | none => pc
  | some chiave =>
    { pc with
      tavola := (pc.tavola.bypass (pc.n + 1) (pcSecchio pc.maschera chiave) k).setKey k none }

def pcLibera (pc : CachePagine Settore) (k : Nat) : CachePagine Settore :=
  let sganciata := pcSgancia pc k
  { sganciata with
    tavola :=
      { sganciata.tavola with
        next := update sganciata.tavola.next k sganciata.libera }
    libera := some k
    usate := (sganciata.usate + (2 ^ 32 - 1)) % 2 ^ 32 }

/-- The clock hand of `pc_nuova`: the first live page not referenced since
the hand last passed it, unlinked from its bucket. -/
def pcLancetta : Nat → CachePagine Settore → CachePagine Settore × Option Nat
  | 0, pc => (pc, none)
  | passi + 1, pc =>
    let k := pc.lancetta
    let pc' := { pc with lancetta := if k + 1 < pc.n then k + 1 else 0 }
    if pc'.tavola.key k = none then pcLancetta passi pc'
    else if pc'.rif k then pcLancetta passi { pc' with rif := update pc'.rif k false }
    else (pcSgancia pc' k, some k)

/-- `pc_nuova`: an entry with a page and in no bucket.  `ram` says whether
memory is not short and has a page to give. -/
def pcNuova (pc : CachePagine Settore) (ram : Bool) : CachePagine Settore × Option Nat :=
  match ram, pc.libera with
  | true, some k =>
    ({ pc with
        libera := pc.tavola.next k, usate := (pc.usate + 1) % 2 ^ 32 },
      some k)
  | _, _ => if pc.usate = 0 then (pc, none) else pcLancetta 8192 pc

/-- The entry a page goes to: its own, or a new one linked in its bucket. -/
def pcVoce (pc : CachePagine Settore) (ram : Bool) (chiave : Chiave) :
    CachePagine Settore × Option Nat :=
  match pcCerca pc chiave with
  | some k => (pc, some k)
  | none =>
    match pcNuova pc ram with
    | (pc', none) => (pc', none)
    | (pc', some k) =>
      ({ pc' with
          tavola := pc'.tavola.push (pcSecchio pc'.maschera chiave) k chiave },
        some k)

def pcMettiRimbalzo (pc : CachePagine Settore) (ram : Bool) (chiave : Chiave)
    (t : Nat → Settore) : CachePagine Settore :=
  match pcVoce pc ram chiave with
  | (pc', none) => pc'
  | (pc', some k) =>
    { pc' with
      rif := update pc'.rif k false
      dati := update pc'.dati k (Buffer.copy (pc'.dati k) 0 t 0 pcSett) }

/-- The piece of `pc_aggiorna` that falls in one page. -/
def pcAggiornaPagina (pc : CachePagine Settore) (chiave : Chiave)
    (off q : Nat) (src : Nat → Settore) : CachePagine Settore :=
  match pcCerca pc chiave with
  | none => pc
  | some k =>
    { pc with
      dati := update pc.dati k (Buffer.copy (pc.dati k) off src 0 q) }

def paginaDi (abs : Nat) : Nat := abs / pcSett * pcSett

/-- How many of `n` sectors from `abs` on are in the page of `abs`. -/
def nellaPagina (abs n : Nat) : Nat :=
  if pcSett - (abs - paginaDi abs) > n then n
  else pcSett - (abs - paginaDi abs)

/-- `pc_aggiorna`; every round takes at least one sector, so `n` rounds are
enough. -/
def pcAggiornaDa (disco : Nat) :
    Nat → CachePagine Settore → Nat → Nat → (Nat → Settore) → CachePagine Settore
  | 0, pc, _, _, _ => pc
  | giri + 1, pc, abs, n, src =>
    if n = 0 then pc
    else
      let pag := paginaDi abs
      let q := nellaPagina abs n
      pcAggiornaDa disco giri
        (pcAggiornaPagina pc (disco, pag) (abs - pag) q src)
        (abs + q) (n - q) fun k => src (k + q)

def pcAggiorna (pc : CachePagine Settore) (disco abs n : Nat)
    (src : Nat → Settore) : CachePagine Settore :=
  pcAggiornaDa disco n pc abs n src

/-- `pc_scarta` from page `pag` up to, and not including, sector `fine`. -/
def pcScartaDa (disco fine : Nat) : Nat → CachePagine Settore → Nat → CachePagine Settore
  | 0, pc, _ => pc
  | giri + 1, pc, pag =>
    if pag < fine then
      let pc' :=
        match pcCerca pc (disco, pag) with
        | none => pc
        | some k => pcLibera pc k
      pcScartaDa disco fine giri pc' (pag + pcSett)
    else pc

def pcScarta (pc : CachePagine Settore) (disco abs n : Nat) : CachePagine Settore :=
  pcScartaDa disco (abs + n) (n + 1) pc (paginaDi abs)

/-- The loop of `blk_cache_cedi`: `k` entries still to pass under the hand and
`dati` pages still to give back. -/
def pcCedi : Nat → Nat → CachePagine Settore → CachePagine Settore
  | 0, _, pc => pc
  | _, 0, pc => pc
  | k + 1, dati + 1, pc =>
    if pc.usate = 0 then pc
    else
      let i := pc.lancetta
      let pc' := { pc with lancetta := if i + 1 < pc.n then i + 1 else 0 }
      if pc'.tavola.key i = none then pcCedi k (dati + 1) pc'
      else pcCedi k dati (pcLibera pc' i)

def pcSvuotaDa (disco : Option Nat) : Nat → CachePagine Settore → Nat → CachePagine Settore
  | 0, pc, _ => pc
  | restanti + 1, pc, i =>
    let pc' :=
      if daSvuotare disco (pc.tavola.key i) then pcLibera pc i else pc
    pcSvuotaDa disco restanti pc' (i + 1)

/-- The disks after a command that stores `n` sectors. -/
def scriviDischi (dischi : Nat → Nat → Settore) (disco abs : Nat)
    (src : Nat → Settore) (n : Nat) : Nat → Nat → Settore :=
  update dischi disco (Buffer.copy (dischi disco) abs src 0 n)

def avantiSett : Nat := 256

/-- The table `pc_init` could allocate: it gives up below sixteen pages. -/
structure TabellaPagine where
  pagine : Nat
  secchi : Nat
  abbastanza : 16 ≤ pagine

/-- What memory grants when the caches are set up at the first read: the
sector cache or not, and after it a page cache of some entries and buckets,
and the window. -/
structure Memoria where
  settori : Bool
  pagine : Option TabellaPagine
  finestra : Bool

/-- A command to a disk: its first sector and how many it asks for. -/
structure Comando where
  disco : Nat
  abs : Nat
  n : Nat

/-- The disks, the caches and the window of read-ahead.  `av` is the memory of
the window, when it has any, and `avDisco` the disk it holds, when it holds
one.  `comandi` are the commands given so far, `esiti` and `ram` the answers
still to come of the controller and of the page allocator. -/
structure Sistema (Settore : Type) where
  dischi : Nat → Nat → Settore
  pronta : Bool
  cache : Option (CacheSettori Settore)
  pc : Option (CachePagine Settore)
  avMemoria : Bool
  av : Nat → Settore
  avDisco : Option Nat
  avLba : Nat
  avN : Nat
  avUltDisco : Option Nat
  avUltFine : Nat
  memoria : Memoria
  comandi : List Comando
  esiti : Nat → Bool
  ram : Nat → Bool

/-- An ATA disk or a partition of one: `BlkDev` without its name and with the
device types that never meet these caches left out.  Disks have 48-bit
addresses and partitions are built from 32-bit fields. -/
structure BlkDev where
  usato : Bool
  guasto : Bool
  solaLettura : Bool
  disco : Nat
  primo : Nat
  settori : Nat
  limite : primo + settori ≤ 2 ^ 48

variable (s : Sistema Settore)

def avantiScarta (disco : Option Nat) (lba n : Nat) : Sistema Settore :=
  match s.avDisco with
  | none => s
  | some corrente =>
    if disco ≠ none ∧ disco ≠ some corrente then s
    else if n ≠ 0 ∧ (s.avLba + s.avN ≤ lba ∨ lba + n ≤ s.avLba) then s
    else { s with avDisco := none }

/-- `cache_init`: the sector cache empty, the page cache with all its entries
on the free list; `vuoto` is whatever the new memory holds. -/
def cacheInit (vuoto : Settore) : Sistema Settore :=
  let tavola : BucketTable Chiave :=
    { key := fun _ => none, next := fun _ => none, head := fun _ => none }
  if s.memoria.settori then
    { s with
      pronta := true
      cache := some { tavola := tavola, uso := fun _ => 0, dati := fun _ => vuoto, orologio := 0 }
      pc := s.memoria.pagine.map fun tabella =>
        { tavola :=
            { tavola with
              next := fun k =>
                if k + 1 < tabella.pagine then some (k + 1) else none }
          rif := fun _ => false
          dati := fun _ _ => vuoto
          n := tabella.pagine
          maschera := tabella.secchi - 1
          lancetta := 0
          usate := 0
          libera := some 0 }
      avMemoria := s.memoria.finestra }
  else { s with pronta := true }

/-! ## Reads

A read takes the caller's buffer and returns it with the sectors in it, or
nothing when it fails; `p` is where in the buffer they go. -/

/-- A command given, and its answer taken. -/
def Sistema.comanda (disco abs n : Nat) : Sistema Settore :=
  { s with
    comandi := s.comandi ++ [⟨disco, abs, n⟩]
    esiti := fun k => s.esiti (k + 1) }

/-- `ata_read` under `disco_leggi`. -/
def discoLeggi (disco abs n : Nat)
    (buf : Nat → Settore) (p : Nat) : Sistema Settore × Option (Nat → Settore) :=
  (s.comanda disco abs n,
    if s.esiti 0 then some (Buffer.copy buf p (s.dischi disco) abs n) else none)

def leggiAvanti (disco abs n : Nat) (buf : Nat → Settore) (p fine : Nat) :
    Sistema Settore × Option (Nat → Settore) :=
  let seguito := s.avUltDisco = some disco ∧ abs = s.avUltFine
  let s₁ := { s with avUltDisco := some disco, avUltFine := abs + n }
  if s₁.avDisco = some disco ∧ s₁.avLba ≤ abs ∧ abs + n ≤ s₁.avLba + s₁.avN then
    (s₁, some (Buffer.copy buf p s₁.av (abs - s₁.avLba) n))
  else if s₁.avMemoria = false ∨ ¬ seguito ∨ n > avantiSett / 2 then discoLeggi s₁ disco abs n buf p
  else
    let quanti := if abs + avantiSett > fine then fine - abs else avantiSett
    let s₂ := { s₁ with avDisco := none }
    if quanti < n then discoLeggi s₂ disco abs n buf p
    else
      match discoLeggi s₂ disco abs quanti s₂.av 0 with
      | (s₃, none) => discoLeggi s₃ disco abs n buf p
      | (s₃, some av) =>
        ({ s₃ with
            av := av, avDisco := some disco, avLba := abs, avN := quanti },
          some (Buffer.copy buf p av 0 n))

variable (b : BlkDev)

def pcFonte (abs n : Nat) (buf : Nat → Settore) (p : Nat) (avanti : Bool) :
    Sistema Settore × Option (Nat → Settore) :=
  if avanti then leggiAvanti s b.disco abs n buf p (b.primo + b.settori)
  else discoLeggi s b.disco abs n buf p

/-- `pc_copia`: the new page cache and buffer when the page is there. -/
def pcCopia (pc : CachePagine Settore) (chiave : Chiave) (off q : Nat)
    (buf : Nat → Settore) (p : Nat) :
    Option (CachePagine Settore × (Nat → Settore)) :=
  match pcCerca pc chiave with
  | none => none
  | some k =>
    some ({ pc with rif := update pc.rif k true }, Buffer.copy buf p (pc.dati k) off q)

/-- How many consecutive whole pages from `pag` on are missing and asked for;
`giri` bounds the search, which `n` does already. -/
def pagineMancanti (pc : CachePagine Settore) (disco pag n : Nat) : Nat → Nat → Nat
  | 0, pagine => pagine
  | giri + 1, pagine =>
    if (pagine + 1) * pcSett ≤ n ∧ pcCerca pc (disco, pag + pagine * pcSett) = none then
      pagineMancanti pc disco pag n giri (pagine + 1)
    else pagine

/-- One page put in the page cache, with the next answer of the allocator. -/
def pcMetti (chiave : Chiave) (t : Nat → Settore) : Sistema Settore :=
  { s with
    pc := s.pc.map fun pc => pcMettiRimbalzo pc (s.ram 0) chiave t
    ram := fun k => s.ram (k + 1) }

/-- The pages of a command, put one after the other from the buffer. -/
def pcMettiTutte (disco : Nat) (buf : Nat → Settore) :
    Nat → Sistema Settore → Nat → Nat → Sistema Settore
  | 0, s, _, _ => s
  | pagine + 1, s, pag, p =>
    pcMettiTutte disco buf pagine
      (pcMetti s (disco, pag) fun k => buf (p + k)) (pag + pcSett) (p + pcSett)

/-- One round of `pc_leggi`: the sectors served, or nothing on failure. -/
def pcLeggiPezzo (pc : CachePagine Settore) (b : BlkDev)
    (abs n : Nat) (buf : Nat → Settore) (p : Nat) (avanti : Bool) :
    Sistema Settore × Option (Nat × (Nat → Settore)) :=
  let pag := paginaDi abs
  let off := abs - pag
  let q := nellaPagina abs n
  match pcCopia pc (b.disco, pag) off q buf p with
  | some (pc', buf') =>
    let s' := { s with pc := some pc' }
    (if avanti then { s' with avUltDisco := some b.disco, avUltFine := abs + q }
      else s',
      some (q, buf'))
  | none =>
    if q = pcSett then
      let pagine := pagineMancanti pc b.disco pag n n 1
      match pcFonte s b abs (pagine * pcSett) buf p avanti with
      | (s', none) => (s', none)
      | (s', some buf') =>
        (pcMettiTutte b.disco buf' pagine s' pag p, some (pagine * pcSett, buf'))
    else if pag < b.primo ∨ pag + pcSett > b.primo + b.settori then
      match pcFonte s b abs q buf p avanti with
      | (s', none) => (s', none)
      | (s', some buf') => (s', some (q, buf'))
    else
      -- A piece of a page reads the whole page into a bounce page, whose
      -- old contents are read over.
      match pcFonte s b pag pcSett (fun _ => buf p) 0 avanti with
      | (s', none) => (s', none)
      | (s', some t) =>
        (pcMetti s' (b.disco, pag) t, some (q, Buffer.copy buf p t off q))

/-- The loop of `pc_leggi`; every round serves at least one sector. -/
def pcLeggiDa (b : BlkDev) (avanti : Bool) :
    Nat → Sistema Settore → Nat → Nat → (Nat → Settore) → Nat →
      Sistema Settore × Option (Nat → Settore)
  | 0, s, _, _, buf, _ => (s, some buf)
  | giri + 1, s, abs, n, buf, p =>
    if n = 0 then (s, some buf)
    else
      match s.pc with
      | none => pcFonte s b abs n buf p avanti
      | some pc =>
        match pcLeggiPezzo s pc b abs n buf p avanti with
        | (s', none) => (s', none)
        | (s', some (q, buf')) =>
          pcLeggiDa b avanti giri s' (abs + q) (n - q) buf' (p + q)

def pcLeggi (abs n : Nat) (buf : Nat → Settore) (avanti : Bool) :
    Sistema Settore × Option (Nat → Settore) :=
  match s.pc with
  | none => pcFonte s b abs n buf 0 avanti
  | some _ => pcLeggiDa b avanti n s abs n buf 0

/-- The first loop of `leggi_ata`: the sectors copied as long as the cache
has them; nothing when one is missing. -/
def cacheServi (disco : Nat) :
    Nat → CacheSettori Settore → Nat → (Nat → Settore) → Nat →
      CacheSettori Settore × Option (Nat → Settore)
  | 0, cache, _, buf, _ => (cache, some buf)
  | n + 1, cache, abs, buf, p =>
    match cacheTrova cache (disco, abs) with
    | none => (cache, none)
    | some k =>
      cacheServi disco n (cacheUsa cache k) (abs + 1) (update buf p (cache.dati k)) (p + 1)

/-- The second loop: every sector just read goes to the cache. -/
def cacheRiempi (disco : Nat) (buf : Nat → Settore) :
    Nat → CacheSettori Settore → Nat → Nat → CacheSettori Settore
  | 0, cache, _, _ => cache
  | n + 1, cache, abs, p =>
    cacheRiempi disco buf n (cacheMetti cache (disco, abs) (buf p)) (abs + 1) (p + 1)

def leggiAta (abs n : Nat) (buf : Nat → Settore) (usaCache : Bool) :
    Sistema Settore × Option (Nat → Settore) :=
  let s₁ := if s.pronta then s else cacheInit s (buf 0)
  match s₁.cache, usaCache && n ≤ cacheMaxN with
  | some cache, true =>
    match cacheServi b.disco n cache abs buf 0 with
    | (cache', some buf') => ({ s₁ with cache := some cache' }, some buf')
    | (cache', none) =>
      match pcLeggi { s₁ with cache := some cache' } b abs n buf false with
      | (s₂, none) => (s₂, none)
      | (s₂, some buf') =>
        ({ s₂ with
            cache := s₂.cache.map fun cache =>
              cacheRiempi b.disco buf' n cache abs 0 },
          some buf')
  | _, _ => pcLeggi s₁ b abs n buf (!usaCache)

/-- `traduci`: the window check and the absolute sector. -/
def traduci (lba n : Nat) : Option Nat :=
  if b.usato = false then none
  else if n = 0 then none
  else if b.guasto then none
  else if (lba + n) % 2 ^ 64 < lba then none
  else if (lba + n) % 2 ^ 64 > b.settori then none
  else some (b.primo + lba)

def leggi (lba n : Nat) (buf : Nat → Settore) (usaCache : Bool) :
    Sistema Settore × Option (Nat → Settore) :=
  match traduci b lba n with
  | none => (s, none)
  | some abs => leggiAta s b abs n buf usaCache

def blkRead (lba n : Nat) (buf : Nat → Settore) : Sistema Settore × Option (Nat → Settore) :=
  leggi s b lba n buf true

def blkReadDiretto (lba n : Nat) (buf : Nat → Settore) : Sistema Settore × Option (Nat → Settore) :=
  leggi s b lba n buf false

/-- `ata_write` under `disco_scrivi`.  `resto` is what the disk holds of the
sectors should the command fail: anything. -/
def discoScrivi (disco abs n : Nat) (buf resto : Nat → Settore) : Sistema Settore × Bool :=
  ({ s.comanda disco abs n with
      dischi := scriviDischi s.dischi disco abs (if s.esiti 0 then buf else resto) n },
    s.esiti 0)

def blkWrite (lba n : Nat) (buf resto : Nat → Settore) : Sistema Settore × Bool :=
  match traduci b lba n with
  | none => (s, false)
  | some abs =>
    if b.solaLettura then (s, false)
    else
      match discoScrivi (avantiScarta s (some b.disco) abs n) b.disco abs n buf resto with
      | (s₁, true) =>
        ({ s₁ with
            cache := s₁.cache.map fun cache =>
              cacheAggiorna b.disco n cache abs buf
            pc := s₁.pc.map fun pc => pcAggiorna pc b.disco abs n buf },
          true)
      | (s₁, false) =>
        ({ s₁ with
            cache := s₁.cache.map fun cache =>
              cacheScarta b.disco n cache abs
            pc := s₁.pc.map fun pc => pcScarta pc b.disco abs n },
          false)

def blkCacheCedi (pagine : Nat) : Sistema Settore :=
  { s with pc := s.pc.map fun pc => pcCedi pc.n pagine pc }

def cacheSvuota (disco : Option Nat) : Sistema Settore :=
  let s₁ := avantiScarta s disco 0 0
  { s₁ with
    cache := s₁.cache.map fun cache => cacheSvuotaDa disco cacheVoci cache 0
    pc := s₁.pc.map fun pc => pcSvuotaDa disco pc.n pc 0 }

end ExOs.Block.Blk
