import Jos.Env

/-!
Setting up memory at boot: `i386_detect_memory`, `boot_alloc`, `page_init` and
`boot_map_region` of `kern/pmap.c`.
-/

namespace Jos

/-- The machine when `mem_init` is entered: the variables of the kernel are
zero, `entry_pgdir` is loaded, and memory holds anything. -/
def Machine.atEntry (image : Image) (nvram : Nat → UInt8) (mem : Mem) : Machine where
  image := image
  nvram := nvram
  npages := 0
  npagesBasemem := 0
  nextfree := 0
  kernPgdir := 0
  pagesKva := 0
  pages := fun _ => { ppLink := none, ppRef := 0 }
  pageFreeList := none
  envsKva := 0
  envs := fun _ => .zero
  envFreeList := none
  curenv := none
  mem := mem
  cr3 := .entry
  tlb := fun _ => none
  fills := fun _ _ => false
  clock := 0

def nvramBaselo : Nat := 0x15
def nvramExtlo : Nat := 0x17
def nvramExt16lo : Nat := 0x34

def nvramRead (r : Nat) : Kern Nat :=
  Prog.read fun s => (s.nvram r).toNat ||| (s.nvram (r + 1)).toNat <<< 8

def i386DetectMemory : Kern Unit := do
  let basemem ← nvramRead nvramBaselo
  let extmem ← nvramRead nvramExtlo
  let ext16mem := (← nvramRead nvramExt16lo) * 64
  let totalmem :=
    if ext16mem ≠ 0 then 16 * 1024 + ext16mem
    else if extmem ≠ 0 then 1 * 1024 + extmem
    else basemem
  Prog.update fun s =>
    { s with
      npages := totalmem / (pgsize.toNat / 1024)
      npagesBasemem := basemem / (pgsize.toNat / 1024) }

def bootAlloc (n : UInt32) : Kern UInt32 := do
  if (← Prog.read (·.nextfree)) = 0 then
    Prog.update fun s => { s with nextfree := roundUp s.image.kend pgsize }
  let nextfree ← Prog.read (·.nextfree)
  if n = 0 then
    return nextfree
  else
    Prog.update fun s => { s with nextfree := nextfree + roundUp n pgsize }
    return nextfree

/-- `pages[i].pp_ref = 0` and `pages[i]` becomes the head of the free list. -/
def pageInitFree (i : Nat) : Kern Unit := do
  let head ← Prog.read (·.pageFreeList)
  setPage i { ppLink := head, ppRef := 0 }
  setPageFreeList (some i)

/-- `pages[i].pp_ref = 1`. -/
def pageInitUsed (i : Nat) : Kern Unit := do
  let info ← Prog.read (·.pages i)
  setPage i { info with ppRef := 1 }

def pageInit : Kern Unit := do
  setPage 0 { ppLink := none, ppRef := 1 }
  Prog.forRange 1 ((← Prog.read (·.npagesBasemem)) - 1) pageInitFree
  let io := (iophysmem / pgsize).toNat
  let ext := (extphysmem / pgsize).toNat
  Prog.forRange io (ext - io) pageInitUsed
  let firstFree := ((← paddr (← bootAlloc 0)) / pgsize).toNat
  Prog.forRange ext (firstFree - ext) pageInitUsed
  Prog.forRange firstFree ((← Prog.read (·.npages)) - firstFree) pageInitFree

def bootMapRegionLoop (pgdir perm : UInt32) : Nat → UInt32 → UInt32 → Kern Unit
  | 0, _, _ => pure ()
  | n + 1, va, pa => do
    match ← pgdirWalk pgdir va true with
    | none => return ()
    | some pgtab =>
      kstore pgtab (pa ||| perm ||| pteP)
      bootMapRegionLoop pgdir perm n (va + pgsize) (pa + pgsize)

def bootMapRegion (pgdir va size pa perm : UInt32) : Kern Unit :=
  bootMapRegionLoop pgdir perm (pgnum size).toNat va pa

end Jos
