import Jos.Boot

/-!
`mem_init` of `kern/pmap.c` with the self-tests that it runs. The console
output and the `cr0` bits that `mem_init` sets at its end are left out: no
function of the model reads them.
-/

namespace Jos

/-- `for (pp = …; pp; pp = pp->pp_link)`. A list with more nodes than there
are pages is circular and the loop does not end. -/
def forPages (body : Nat → Kern Unit) : Nat → Option Nat → Kern Unit
  | _, none => pure ()
  | 0, some _ => Prog.halt .hang
  | fuel + 1, some pp => do
    body pp
    forPages body fuel (← Prog.read fun s => (s.pages pp).ppLink)

def listFuel : Kern Nat := Prog.read fun s => s.npages + s.npagesBasemem

/-- Where `tp[0]` and `tp[1]` of `check_page_free_list` point: to one of its
local variables or to the link of a page. -/
inductive LinkPtr where
  | pp1
  | pp2
  | link (pp : Nat)

/-- The local variables of the relinking loop. -/
structure Relink where
  pp1 : Option Nat
  pp2 : Option Nat
  tp0 : LinkPtr
  tp1 : LinkPtr

/-- `*tp = v`. -/
def storeLink (r : Relink) (tp : LinkPtr) (v : Option Nat) : Kern Relink :=
  match tp with
  | .pp1 => return { r with pp1 := v }
  | .pp2 => return { r with pp2 := v }
  | .link pp => do
    let info ← Prog.read (·.pages pp)
    setPage pp { info with ppLink := v }
    return r

def relinkLoop (pdxLimit : UInt32) : Nat → Option Nat → Relink → Kern Relink
  | _, none, r => return r
  | 0, some _, _ => Prog.halt .hang
  | fuel + 1, some pp, r => do
    let r ←
      if pdxLimit ≤ pdx (page2pa pp) then do
        let r ← storeLink r r.tp1 (some pp)
        pure { r with tp1 := .link pp }
      else do
        let r ← storeLink r r.tp0 (some pp)
        pure { r with tp0 := .link pp }
    relinkLoop pdxLimit fuel (← Prog.read fun s => (s.pages pp).ppLink) r

/-- Moves the pages below `pdxLimit` to the front of the free list. -/
def relinkFreeList (pdxLimit : UInt32) : Kern Unit := do
  let r ← relinkLoop pdxLimit (← listFuel) (← Prog.read (·.pageFreeList))
    { pp1 := none, pp2 := none, tp0 := .pp1, tp1 := .pp2 }
  let r ← storeLink r r.tp1 none
  let r ← storeLink r r.tp0 r.pp2
  setPageFreeList r.pp1

def checkFreePage (firstFreePage : UInt32) (pp : Nat) : Kern Unit := do
  kassert (pp < (← Prog.read (·.npages))) "pp < pages + npages"
  kassert (page2pa pp ≠ 0) "page2pa(pp) != 0"
  kassert (page2pa pp ≠ iophysmem) "page2pa(pp) != IOPHYSMEM"
  kassert (page2pa pp ≠ extphysmem - pgsize) "page2pa(pp) != EXTPHYSMEM - PGSIZE"
  kassert (page2pa pp ≠ extphysmem) "page2pa(pp) != EXTPHYSMEM"
  if page2pa pp < extphysmem then
    pure ()
  else
    kassert (firstFreePage ≤ (← page2kva pp))
      "page2pa(pp) < EXTPHYSMEM || (char *) page2kva(pp) >= first_free_page"

/-- Checks the pages of the list and counts those below and above 1 MB. -/
def countFreePages (firstFreePage : UInt32) :
    Nat → Option Nat → Nat → Nat → Kern (Nat × Nat)
  | _, none, nbase, next => return (nbase, next)
  | 0, some _, _, _ => Prog.halt .hang
  | fuel + 1, some pp, nbase, next => do
    checkFreePage firstFreePage pp
    let link ← Prog.read fun s => (s.pages pp).ppLink
    if page2pa pp < extphysmem then
      countFreePages firstFreePage fuel link (nbase + 1) next
    else
      countFreePages firstFreePage fuel link nbase (next + 1)

def scribbleFreePage (pdxLimit : UInt32) (pp : Nat) : Kern Unit := do
  if pdx (page2pa pp) < pdxLimit then
    kmemset (← page2kva pp) 0x97 128

def checkPageFreeList (onlyLowMemory : Bool) : Kern Unit := do
  let pdxLimit : UInt32 := if onlyLowMemory then 1 else 1024
  if (← Prog.read (·.pageFreeList)) = none then
    panic "'page_free_list' is a null pointer!"
  else
    if onlyLowMemory then
      relinkFreeList pdxLimit
    forPages (scribbleFreePage pdxLimit) (← listFuel) (← Prog.read (·.pageFreeList))
    let firstFreePage ← bootAlloc 0
    let (nbase, next) ← countFreePages firstFreePage (← listFuel)
      (← Prog.read (·.pageFreeList)) 0 0
    kassert (0 < nbase) "nfree_basemem > 0"
    kassert (0 < next) "nfree_extmem > 0"

/-- `for (pp = page_free_list; pp; pp = pp->pp_link) nfree += step`. -/
def countPages (step : Int) : Nat → Option Nat → Int → Kern Int
  | _, none, nfree => return nfree
  | 0, some _, _ => Prog.halt .hang
  | fuel + 1, some pp, nfree => do
    countPages step fuel (← Prog.read fun s => (s.pages pp).ppLink) (nfree + step)

/-- `assert((pp = page_alloc(flags)))`. -/
def assertAlloc (flags : UInt32) (text : String) : Kern Nat := do
  match ← pageAlloc flags with
  | some pp => return pp
  | none => panic ("assertion failed: " ++ text)

/-- `assert(!page_alloc(0))`. -/
def assertNoPage : Kern Unit := do
  kassert ((← pageAlloc 0) = none) "!page_alloc(0)"

/-- Allocates three pages and checks that they differ. -/
def assertThree : Kern (Nat × Nat × Nat) := do
  let pp0 ← assertAlloc 0 "(pp0 = page_alloc(0))"
  let pp1 ← assertAlloc 0 "(pp1 = page_alloc(0))"
  let pp2 ← assertAlloc 0 "(pp2 = page_alloc(0))"
  kassert (pp1 ≠ pp0) "pp1 && pp1 != pp0"
  kassert (pp2 ≠ pp1 ∧ pp2 ≠ pp0) "pp2 && pp2 != pp1 && pp2 != pp0"
  return (pp0, pp1, pp2)

def freeThree (pp0 pp1 pp2 : Nat) : Kern Unit := do
  pageFree pp0
  pageFree pp1
  pageFree pp2

/-- `for (i = 0; i < PGSIZE; i++) assert(c[i] == 0)`. -/
def assertZeroPage (c : UInt32) : Kern Unit :=
  Prog.forRange 0 pgsize.toNat fun i => do
    kassert ((← vloadByte (c + UInt32.ofNat i)) = 0) "c[i] == 0"

def checkPageAlloc : Kern Unit := do
  if (← Prog.read (·.pagesKva)) = 0 then
    panic "'pages' is a null pointer!"
  else
    let nfree ← countPages 1 (← listFuel) (← Prog.read (·.pageFreeList)) 0
    let (pp0, pp1, pp2) ← assertThree
    let limit ← Prog.read fun s => UInt32.ofNat s.npages * pgsize
    kassert (page2pa pp0 < limit) "page2pa(pp0) < npages*PGSIZE"
    kassert (page2pa pp1 < limit) "page2pa(pp1) < npages*PGSIZE"
    kassert (page2pa pp2 < limit) "page2pa(pp2) < npages*PGSIZE"
    let fl ← Prog.read (·.pageFreeList)
    setPageFreeList none
    assertNoPage
    freeThree pp0 pp1 pp2
    let (pp0, pp1, pp2) ← assertThree
    assertNoPage
    kmemset (← page2kva pp0) 1 pgsize.toNat
    pageFree pp0
    let pp ← assertAlloc allocZero "(pp = page_alloc(ALLOC_ZERO))"
    kassert (pp0 = pp) "pp && pp0 == pp"
    assertZeroPage (← page2kva pp)
    setPageFreeList fl
    freeThree pp0 pp1 pp2
    let nfree ← countPages (-1) (← listFuel) (← Prog.read (·.pageFreeList)) nfree
    kassert (nfree = 0) "nfree == 0"

def checkVa2pa (pgdir va : UInt32) : Kern UInt32 := do
  let pde ← kload (entryPtr pgdir (pdx va))
  if present pde then
    let p ← kaddr (pteAddr pde)
    let pte ← kload (entryPtr p (ptx va))
    if present pte then return pteAddr pte else return ~~~0
  else
    return ~~~0

/-- `for (i = 0; i < n * PGSIZE; i += PGSIZE)
assert(check_va2pa(pgdir, va + i) == pa + i)`. -/
def checkMapped (pgdir va pa : UInt32) (text : String) (n : Nat) : Kern Unit :=
  Prog.forRange 0 n fun k => do
    let i := UInt32.ofNat k * pgsize
    kassert ((← checkVa2pa pgdir (va + i)) = pa + i) text

/-- One round of the loop over the directory in `check_kern_pgdir`. -/
def checkPde (pgdir : UInt32) (i : Nat) : Kern Unit := do
  let pde ← kload (entryPtr pgdir (UInt32.ofNat i))
  if i = (pdx uvpt).toNat ∨ i = (pdx (kstacktop - 1)).toNat ∨ i = (pdx upages).toNat ∨
      i = (pdx uenvs).toNat then
    kassert (present pde) "pgdir[i] & PTE_P"
  else if (pdx kernbase).toNat ≤ i then
    kassert (present pde) "pgdir[i] & PTE_P"
    kassert (pde &&& pteW ≠ 0) "pgdir[i] & PTE_W"
  else
    kassert (pde = 0) "pgdir[i] == 0"

def checkKernPgdir : Kern Unit := do
  let pgdir ← Prog.read (·.kernPgdir)
  let npages ← Prog.read fun s => UInt32.ofNat s.npages
  checkMapped pgdir upages (← paddr (← Prog.read (·.pagesKva)))
    "check_va2pa(pgdir, UPAGES + i) == PADDR(pages) + i"
    (roundUp (npages * sizeofPageInfo) pgsize / pgsize).toNat
  checkMapped pgdir uenvs (← paddr (← Prog.read (·.envsKva)))
    "check_va2pa(pgdir, UENVS + i) == PADDR(envs) + i"
    (roundUp (UInt32.ofNat nenv * sizeofEnv) pgsize / pgsize).toNat
  checkMapped pgdir kernbase 0 "check_va2pa(pgdir, KERNBASE + i) == i"
    (npages * pgsize / pgsize).toNat
  checkMapped pgdir (kstacktop - kstksize) (← paddr (← Prog.read (·.image.bootstack)))
    "check_va2pa(pgdir, KSTACKTOP - KSTKSIZE + i) == PADDR(bootstack) + i"
    (kstksize / pgsize).toNat
  kassert ((← checkVa2pa pgdir (kstacktop - ptsize)) = ~~~0)
    "check_va2pa(pgdir, KSTACKTOP - PTSIZE) == ~0"
  Prog.forRange 0 npdentries (checkPde pgdir)

/-- `*p` for the result `p` of `pgdir_walk`. -/
def loadPte (p : Option UInt32) : Kern UInt32 := kload (p.getD 0)

/-- `pp->pp_ref`. -/
def refOf (pp : Nat) : Kern UInt16 := Prog.read fun s => (s.pages pp).ppRef

/-- `pp->pp_ref = 0`. -/
def clearRef (pp : Nat) : Kern Unit := do
  let info ← Prog.read (·.pages pp)
  setPage pp { info with ppRef := 0 }

/-- `kern_pgdir[i]`. -/
def loadPde (i : UInt32) : Kern UInt32 := do
  kload (entryPtr (← Prog.read (·.kernPgdir)) i)

/-- `kern_pgdir[i] = 0`. -/
def clearPde (i : UInt32) : Kern Unit := do
  kstore (entryPtr (← Prog.read (·.kernPgdir)) i) 0

/-- `assert(check_va2pa(kern_pgdir, va) == pa)`. -/
def assertVa2pa (va pa : UInt32) (text : String) : Kern Unit := do
  kassert ((← checkVa2pa (← Prog.read (·.kernPgdir)) va) = pa) text

/-- `assert(pp->pp_ref == r)`. -/
def assertRef (pp : Nat) (r : UInt16) (text : String) : Kern Unit := do
  kassert ((← refOf pp) = r) text

/-- `assert(page_insert(kern_pgdir, pp, va, perm) == 0)`. -/
def assertInsert (pp : Nat) (va perm : UInt32) (text : String) : Kern Unit := do
  kassert ((← pageInsert (← Prog.read (·.kernPgdir)) pp va perm) = 0) text

/-- `assert(page_insert(kern_pgdir, pp, va, perm) < 0)`. -/
def assertInsertFails (pp : Nat) (va perm : UInt32) (text : String) : Kern Unit := do
  kassert ((← pageInsert (← Prog.read (·.kernPgdir)) pp va perm) < 0) text

/-- `*pgdir_walk(kern_pgdir, va, 0)`. -/
def walkPte (va : UInt32) : Kern UInt32 := do
  loadPte (← pgdirWalk (← Prog.read (·.kernPgdir)) va false)

/-- Inserting while no page is free, and with `pp0` as the page table. -/
def checkPageInsert (pp0 pp1 pp2 : Nat) : Kern Unit := do
  assertNoPage
  kassert ((← pageLookup (← Prog.read (·.kernPgdir)) 0) = none)
    "page_lookup(kern_pgdir, (void *) 0x0, &ptep) == NULL"
  assertInsertFails pp1 0 pteW "page_insert(kern_pgdir, pp1, 0x0, PTE_W) < 0"
  pageFree pp0
  assertInsert pp1 0 pteW "page_insert(kern_pgdir, pp1, 0x0, PTE_W) == 0"
  kassert (pteAddr (← loadPde 0) = page2pa pp0) "PTE_ADDR(kern_pgdir[0]) == page2pa(pp0)"
  assertVa2pa 0 (page2pa pp1) "check_va2pa(kern_pgdir, 0x0) == page2pa(pp1)"
  assertRef pp1 1 "pp1->pp_ref == 1"
  assertRef pp0 1 "pp0->pp_ref == 1"
  assertInsert pp2 pgsize pteW "page_insert(kern_pgdir, pp2, (void*) PGSIZE, PTE_W) == 0"
  assertVa2pa pgsize (page2pa pp2) "check_va2pa(kern_pgdir, PGSIZE) == page2pa(pp2)"
  assertRef pp2 1 "pp2->pp_ref == 1"
  assertNoPage

/-- Inserting `pp2` where it already is, with other permissions. -/
def checkPageReinsert (pp0 pp2 : Nat) : Kern Unit := do
  assertInsert pp2 pgsize pteW "page_insert(kern_pgdir, pp2, (void*) PGSIZE, PTE_W) == 0"
  assertVa2pa pgsize (page2pa pp2) "check_va2pa(kern_pgdir, PGSIZE) == page2pa(pp2)"
  assertRef pp2 1 "pp2->pp_ref == 1"
  assertNoPage
  let ptep ← kaddr (pteAddr (← loadPde (pdx pgsize)))
  kassert ((← pgdirWalk (← Prog.read (·.kernPgdir)) pgsize false) =
      some (entryPtr ptep (ptx pgsize)))
    "pgdir_walk(kern_pgdir, (void*)PGSIZE, 0) == ptep+PTX(PGSIZE)"
  assertInsert pp2 pgsize (pteW ||| pteU)
    "page_insert(kern_pgdir, pp2, (void*) PGSIZE, PTE_W|PTE_U) == 0"
  assertVa2pa pgsize (page2pa pp2) "check_va2pa(kern_pgdir, PGSIZE) == page2pa(pp2)"
  assertRef pp2 1 "pp2->pp_ref == 1"
  kassert ((← walkPte pgsize) &&& pteU ≠ 0) "*pgdir_walk(kern_pgdir, (void*) PGSIZE, 0) & PTE_U"
  kassert ((← loadPde 0) &&& pteU ≠ 0) "kern_pgdir[0] & PTE_U"
  assertInsert pp2 pgsize pteW "page_insert(kern_pgdir, pp2, (void*) PGSIZE, PTE_W) == 0"
  kassert ((← walkPte pgsize) &&& pteW ≠ 0) "*pgdir_walk(kern_pgdir, (void*) PGSIZE, 0) & PTE_W"
  kassert ((← walkPte pgsize) &&& pteU = 0)
    "!(*pgdir_walk(kern_pgdir, (void*) PGSIZE, 0) & PTE_U)"
  assertInsertFails pp0 ptsize pteW "page_insert(kern_pgdir, pp0, (void*) PTSIZE, PTE_W) < 0"

/-- Replacing `pp2` by `pp1`, and removing both mappings of `pp1`. -/
def checkPageRemove (pp1 pp2 : Nat) : Kern Unit := do
  assertInsert pp1 pgsize pteW "page_insert(kern_pgdir, pp1, (void*) PGSIZE, PTE_W) == 0"
  kassert ((← walkPte pgsize) &&& pteU = 0)
    "!(*pgdir_walk(kern_pgdir, (void*) PGSIZE, 0) & PTE_U)"
  assertVa2pa 0 (page2pa pp1) "check_va2pa(kern_pgdir, 0) == page2pa(pp1)"
  assertVa2pa pgsize (page2pa pp1) "check_va2pa(kern_pgdir, PGSIZE) == page2pa(pp1)"
  assertRef pp1 2 "pp1->pp_ref == 2"
  assertRef pp2 0 "pp2->pp_ref == 0"
  kassert ((← pageAlloc 0) = some pp2) "(pp = page_alloc(0)) && pp == pp2"
  pageRemove (← Prog.read (·.kernPgdir)) 0
  assertVa2pa 0 (~~~0) "check_va2pa(kern_pgdir, 0x0) == ~0"
  assertVa2pa pgsize (page2pa pp1) "check_va2pa(kern_pgdir, PGSIZE) == page2pa(pp1)"
  assertRef pp1 1 "pp1->pp_ref == 1"
  assertRef pp2 0 "pp2->pp_ref == 0"
  assertInsert pp1 pgsize 0 "page_insert(kern_pgdir, pp1, (void*) PGSIZE, 0) == 0"
  kassert ((← refOf pp1) ≠ 0) "pp1->pp_ref"
  kassert ((← Prog.read fun s => (s.pages pp1).ppLink) = none) "pp1->pp_link == NULL"
  pageRemove (← Prog.read (·.kernPgdir)) pgsize
  assertVa2pa 0 (~~~0) "check_va2pa(kern_pgdir, 0x0) == ~0"
  assertVa2pa pgsize (~~~0) "check_va2pa(kern_pgdir, PGSIZE) == ~0"
  assertRef pp1 0 "pp1->pp_ref == 0"
  assertRef pp2 0 "pp2->pp_ref == 0"
  kassert ((← pageAlloc 0) = some pp1) "(pp = page_alloc(0)) && pp == pp1"
  assertNoPage

/-- Takes the page table `pp0` back and lets `pgdir_walk` create page tables
from it, one of them from a page full of ones. -/
def checkPageWalk (pp0 : Nat) : Kern Unit := do
  kassert (pteAddr (← loadPde 0) = page2pa pp0) "PTE_ADDR(kern_pgdir[0]) == page2pa(pp0)"
  clearPde 0
  assertRef pp0 1 "pp0->pp_ref == 1"
  clearRef pp0
  pageFree pp0
  let va := pgsize * UInt32.ofNat npdentries + pgsize
  let ptep ← pgdirWalk (← Prog.read (·.kernPgdir)) va true
  let ptep1 ← kaddr (pteAddr (← loadPde (pdx va)))
  kassert (ptep = some (entryPtr ptep1 (ptx va))) "ptep == ptep1 + PTX(va)"
  clearPde (pdx va)
  clearRef pp0
  kmemset (← page2kva pp0) 0xFF pgsize.toNat
  pageFree pp0
  let _ ← pgdirWalk (← Prog.read (·.kernPgdir)) 0 true
  let ptep ← page2kva pp0
  Prog.forRange 0 nptentries fun i => do
    kassert (¬ present (← kload (entryPtr ptep (UInt32.ofNat i)))) "(ptep[i] & PTE_P) == 0"
  clearPde 0
  clearRef pp0

def checkPage : Kern Unit := do
  let (pp0, pp1, pp2) ← assertThree
  let fl ← Prog.read (·.pageFreeList)
  setPageFreeList none
  checkPageInsert pp0 pp1 pp2
  checkPageReinsert pp0 pp2
  checkPageRemove pp1 pp2
  checkPageWalk pp0
  setPageFreeList fl
  freeThree pp0 pp1 pp2

/-- `*(uint32_t *) va = w`. -/
def vstore32 (va w : UInt32) : Kern Unit := do
  vstoreByte va (byteOf w 0)
  vstoreByte (va + 1) (byteOf w 1)
  vstoreByte (va + 2) (byteOf w 2)
  vstoreByte (va + 3) (byteOf w 3)

def checkPageInstalledPgdir : Kern Unit := do
  let pp0 ← assertAlloc 0 "(pp0 = page_alloc(0))"
  let pp1 ← assertAlloc 0 "(pp1 = page_alloc(0))"
  let pp2 ← assertAlloc 0 "(pp2 = page_alloc(0))"
  pageFree pp0
  kmemset (← page2kva pp1) 1 pgsize.toNat
  kmemset (← page2kva pp2) 2 pgsize.toNat
  let _ ← pageInsert (← Prog.read (·.kernPgdir)) pp1 pgsize pteW
  assertRef pp1 1 "pp1->pp_ref == 1"
  kassert ((← vload32 pgsize) = 0x01010101) "*(uint32_t *)PGSIZE == 0x01010101U"
  let _ ← pageInsert (← Prog.read (·.kernPgdir)) pp2 pgsize pteW
  kassert ((← vload32 pgsize) = 0x02020202) "*(uint32_t *)PGSIZE == 0x02020202U"
  assertRef pp2 1 "pp2->pp_ref == 1"
  assertRef pp1 0 "pp1->pp_ref == 0"
  vstore32 pgsize 0x03030303
  kassert ((← kload (← page2kva pp2)) = 0x03030303) "*(uint32_t *)page2kva(pp2) == 0x03030303U"
  pageRemove (← Prog.read (·.kernPgdir)) pgsize
  assertRef pp2 0 "pp2->pp_ref == 0"
  kassert (pteAddr (← loadPde 0) = page2pa pp0) "PTE_ADDR(kern_pgdir[0]) == page2pa(pp0)"
  clearPde 0
  assertRef pp0 1 "pp0->pp_ref == 1"
  clearRef pp0
  pageFree pp0

/-- Allocates `kern_pgdir`. -/
def memInitPgdir : Kern Unit := do
  let kernPgdir ← bootAlloc pgsize
  Prog.update fun s => { s with kernPgdir := kernPgdir }
  kmemset kernPgdir 0 pgsize.toNat
  kstore (entryPtr kernPgdir (pdx uvpt)) ((← paddr kernPgdir) ||| pteU ||| pteP)

/-- Allocates the array `pages`. -/
def memInitPages : Kern Unit := do
  let size := (UInt32.ofNat (← Prog.read (·.npages))) * sizeofPageInfo
  let pages ← bootAlloc size
  Prog.update fun s => { s with pagesKva := pages }
  kcheckRange pages size.toNat

/-- Allocates the array `envs`. -/
def memInitEnvs : Kern Unit := do
  let size := UInt32.ofNat nenv * sizeofEnv
  let envs ← bootAlloc size
  Prog.update fun s => { s with envsKva := envs }
  kcheckRange envs size.toNat

/-- `mem_init` before `page_init`. -/
def memInitAreas : Kern Unit := do
  i386DetectMemory
  memInitPgdir
  memInitPages
  memInitEnvs

/-- The four calls of `boot_map_region`. -/
def memInitMap : Kern Unit := do
  let kernPgdir ← Prog.read (·.kernPgdir)
  let npages ← Prog.read (·.npages)
  bootMapRegion kernPgdir upages (UInt32.ofNat npages * sizeofPageInfo)
    (← paddr (← Prog.read (·.pagesKva))) (pteU ||| pteP)
  bootMapRegion kernPgdir uenvs (roundUp (UInt32.ofNat nenv * sizeofEnv) pgsize)
    (← paddr (← Prog.read (·.envsKva))) (pteU ||| pteP)
  bootMapRegion kernPgdir (kstacktop - kstksize) kstksize
    (← paddr (← Prog.read (·.image.bootstack))) (pteW ||| pteP)
  bootMapRegion kernPgdir kernbase (roundUp (0xFFFFFFFF - kernbase) pgsize) 0 (pteW ||| pteP)

/-- `mem_init` until it reaches `check_kern_pgdir`. -/
def memInitBuild : Kern Unit := do
  memInitAreas
  pageInit
  checkPageFreeList true
  checkPageAlloc
  checkPage
  memInitMap

def memInit : Kern Unit := do
  memInitBuild
  checkKernPgdir
  lcr3 (← paddr (← Prog.read (·.kernPgdir)))
  checkPageFreeList false
  checkPageInstalledPgdir

end Jos
