import Jos.Machine

/-!
Physical page allocation and page table management, from `kern/pmap.h` and
`kern/pmap.c`. A `struct PageInfo *` is the index of the page in `pages`, with
`none` for `NULL`; a `pte_t *` or `pde_t *` is its kernel virtual address.
-/

namespace Jos

def allocZero : UInt32 := 1

def paddr (kva : UInt32) : Kern UInt32 :=
  if kva < kernbase then panic "PADDR called with invalid kva %08lx"
  else return kva - kernbase

def kaddr (pa : UInt32) : Kern UInt32 := do
  let npages ← Prog.read (·.npages)
  if npages ≤ (pgnum pa).toNat then panic "KADDR called with invalid pa %08lx"
  else return pa + kernbase

def page2pa (pp : Nat) : UInt32 := UInt32.ofNat pp <<< 12

def pa2page (pa : UInt32) : Kern Nat := do
  let npages ← Prog.read (·.npages)
  if npages ≤ (pgnum pa).toNat then panic "pa2page called with invalid pa"
  else return (pgnum pa).toNat

def page2kva (pp : Nat) : Kern UInt32 := kaddr (page2pa pp)

/-- `&p[i]` for an array of 32-bit entries. -/
def entryPtr (p i : UInt32) : UInt32 := p + 4 * i

def setPage (pp : Nat) (info : PageInfo) : Kern Unit :=
  Prog.update fun s => { s with pages := Function.update s.pages pp info }

def setPageFreeList (pp : Option Nat) : Kern Unit :=
  Prog.update fun s => { s with pageFreeList := pp }

def pageAlloc (allocFlags : UInt32) : Kern (Option Nat) := do
  match ← Prog.read (·.pageFreeList) with
  | none => return none
  | some pg =>
    setPageFreeList (← Prog.read fun s => (s.pages pg).ppLink)
    setPage pg { ppLink := none, ppRef := 0 }
    if allocFlags &&& allocZero ≠ 0 then
      kmemset (← page2kva pg) 0 pgsize.toNat
    return some pg

def pageFree (pp : Nat) : Kern Unit := do
  let info ← Prog.read (·.pages pp)
  if info.ppRef ≠ 0 ∨ info.ppLink ≠ none then
    panic "pp->pp_ref is nonzero or pp->pp_link is not NULL."
  else
    let tmp ← Prog.read (·.pageFreeList)
    setPageFreeList (some pp)
    setPage pp { info with ppLink := tmp }

def pageDecref (pp : Nat) : Kern Unit := do
  let info ← Prog.read (·.pages pp)
  setPage pp { info with ppRef := info.ppRef - 1 }
  if info.ppRef - 1 = 0 then
    pageFree pp

def pgdirWalk (pgdir va : UInt32) (create : Bool) : Kern (Option UInt32) := do
  let pde ← kload (entryPtr pgdir (pdx va))
  if present pde then
    let pgtab ← kaddr (pteAddr pde)
    return some (entryPtr pgtab (ptx va))
  else if create then
    match ← pageAlloc allocZero with
    | some newPageInfo =>
      let info ← Prog.read (·.pages newPageInfo)
      setPage newPageInfo { info with ppRef := info.ppRef + 1 }
      let pgtab ← page2kva newPageInfo
      kstore (entryPtr pgdir (pdx va)) ((← paddr pgtab) ||| pteP ||| pteW ||| pteU)
      return some (entryPtr pgtab (ptx va))
    | none => return none
  else
    return none

/-- The found page, with the address of its entry that goes to `*pte_store`. -/
def pageLookup (pgdir va : UInt32) : Kern (Option (Nat × UInt32)) := do
  match ← pgdirWalk pgdir va false with
  | none => return none
  | some pgtab =>
    let pp ← pa2page (pteAddr (← kload pgtab))
    return some (pp, pgtab)

def tlbInvalidate (_pgdir va : UInt32) : Kern Unit := invlpg va

def pageRemove (pgdir va : UInt32) : Kern Unit := do
  match ← pageLookup pgdir va with
  | none => return ()
  | some (pInfo, pgtab) =>
    pageDecref pInfo
    kstore pgtab 0
    tlbInvalidate pgdir va

def pageInsert (pgdir : UInt32) (pp : Nat) (va perm : UInt32) : Kern Int := do
  match ← pgdirWalk pgdir va true with
  | none => return -eNoMem
  | some pgtab =>
    let pte ← kload pgtab
    if present pte ∧ page2pa pp = pteAddr pte then
      kstore pgtab (page2pa pp ||| perm ||| pteP)
      return 0
    else
      if present pte then
        pageRemove pgdir va
      kstore pgtab (page2pa pp ||| perm ||| pteP)
      let info ← Prog.read (·.pages pp)
      setPage pp { info with ppRef := info.ppRef + 1 }
      return 0

end Jos
