import Jos.Mmu

/-!
The machine state that the memory and environment code of the kernel reads and
writes, and the ways it reaches memory. Physical memory is an array of 32-bit
words, 1024 to a page frame. The arrays `pages` and `envs` are kept apart from
it: their frames are never handed out.

Kernel pointers go through the window that maps physical memory at `KERNBASE`.
While `entry_pgdir` is loaded the window is 4 MB long; with any later page
directory it is 256 MB long. `load_icode` also uses user addresses; those go
through the two-level walk of the loaded page directory.
-/

namespace Jos

abbrev nenv : Nat := 1024

/-- `sizeof(struct PageInfo)`: a pointer, a 16-bit count and its padding. -/
def sizeofPageInfo : UInt32 := 8

/-- `sizeof(struct Env)`: a 68-byte trap frame and seven words. -/
def sizeofEnv : UInt32 := 96

/-- Why a call does not return. -/
inductive Halt where
  | panic (msg : String)
  | pageFault (va : UInt32)
  | hang
deriving DecidableEq

structure PageInfo where
  ppLink : Option Nat
  ppRef : UInt16
deriving DecidableEq

structure PushRegs where
  regEdi : UInt32
  regEsi : UInt32
  regEbp : UInt32
  regOesp : UInt32
  regEbx : UInt32
  regEdx : UInt32
  regEcx : UInt32
  regEax : UInt32
deriving DecidableEq

structure Trapframe where
  tfRegs : PushRegs
  tfEs : UInt16
  tfPadding1 : UInt16
  tfDs : UInt16
  tfPadding2 : UInt16
  tfTrapno : UInt32
  tfErr : UInt32
  tfEip : UInt32
  tfCs : UInt16
  tfPadding3 : UInt16
  tfEflags : UInt32
  tfEsp : UInt32
  tfSs : UInt16
  tfPadding4 : UInt16
deriving DecidableEq

/-- `memset(&env_tf, 0, sizeof(env_tf))`. -/
def Trapframe.zero : Trapframe :=
  ⟨⟨0, 0, 0, 0, 0, 0, 0, 0⟩, 0, 0, 0, 0, 0, 0, 0, 0, 0, 0, 0, 0, 0⟩

inductive EnvStatus where
  | free
  | dying
  | runnable
  | running
  | notRunnable
deriving DecidableEq

inductive EnvType where
  | user
deriving DecidableEq

structure Env where
  envTf : Trapframe
  envLink : Option (Fin nenv)
  envId : Int32
  envParentId : Int32
  envType : EnvType
  envStatus : EnvStatus
  envRuns : UInt32
  /-- Kernel virtual address of the page directory, 0 for `NULL`. -/
  envPgdir : UInt32
deriving DecidableEq

/-- `memset(envs, 0, …)`. -/
def Env.zero : Env := ⟨.zero, none, 0, 0, .user, .free, 0, 0⟩

/-- The loaded page directory: the one of `entry.S`, or the one at a physical
address. -/
inductive Cr3 where
  | entry
  | pgdir (pa : UInt32)
deriving DecidableEq

/-- What the linker fixes: `end` lies after the kernel image at 1 MB, and
`bootstack` is a page-aligned part of that image. -/
structure Image where
  kend : UInt32
  bootstack : UInt32
  kend_gt : kernbase.toNat + extphysmem.toNat < kend.toNat
  bootstack_aligned : bootstack.toNat % 4096 = 0
  bootstack_ge : kernbase.toNat + extphysmem.toNat ≤ bootstack.toNat
  bootstack_le : bootstack.toNat + kstksize.toNat ≤ kend.toNat

/-- Physical memory: page frame, then word in the frame. -/
abbrev Mem : Type := Nat → Fin 1024 → UInt32

/-- A virtual page: its index in the page directory and in the page table. -/
abbrev Vpn : Type := Fin 1024 × Fin 1024

structure Machine where
  image : Image
  /-- The bytes of the real-time clock's non-volatile memory. -/
  nvram : Nat → UInt8
  npages : Nat
  npagesBasemem : Nat
  /-- `boot_alloc`'s static pointer, 0 for `NULL`. -/
  nextfree : UInt32
  kernPgdir : UInt32
  /-- The value of the pointer `pages`, and the array it points to. -/
  pagesKva : UInt32
  pages : Nat → PageInfo
  pageFreeList : Option Nat
  /-- The value of the pointer `envs`, and the array it points to. -/
  envsKva : UInt32
  envs : Fin nenv → Env
  envFreeList : Option (Fin nenv)
  curenv : Option (Fin nenv)
  mem : Mem
  cr3 : Cr3
  /-- The entries the processor has cached. -/
  tlb : Vpn → Option UInt32
  /-- Which pages the processor looks up and caches before the change of memory
  with that number. -/
  fills : Nat → Vpn → Bool
  /-- The number of the next change of memory. -/
  clock : Nat

abbrev Kern : Type → Type := Prog Machine Halt

def panic {α : Type} (msg : String) : Kern α := Prog.halt (.panic msg)

def kassert (c : Bool) (text : String) : Kern Unit :=
  if c then pure () else panic ("assertion failed: " ++ text)

def byteOf (w : UInt32) (k : Nat) : UInt8 := UInt8.ofNat (w.toNat / 256 ^ k)

/-- A little-endian word. -/
def wordOf (b : Nat → UInt8) : UInt32 :=
  UInt32.ofNat ((b 0).toNat + 256 * (b 1).toNat + 65536 * (b 2).toNat +
    16777216 * (b 3).toNat)

def wordIdx (pa : Nat) : Fin 1024 := ⟨pa % 4096 / 4, by omega⟩

namespace Mem

def byte (m : Mem) (pa : Nat) : UInt8 := byteOf (m (pa / 4096) (wordIdx pa)) (pa % 4)

def setWord (m : Mem) (f : Nat) (i : Fin 1024) (v : UInt32) : Mem := fun g j =>
  if g = f ∧ j = i then v else m g j

def setByte (m : Mem) (pa : Nat) (b : UInt8) : Mem :=
  m.setWord (pa / 4096) (wordIdx pa) (wordOf fun k =>
    if k = pa % 4 then b else byteOf (m (pa / 4096) (wordIdx pa)) k)

/-- The `n` bytes from `lo` on become `c`. -/
def fill (m : Mem) (lo n : Nat) (c : UInt8) : Mem := fun f i =>
  wordOf fun k =>
    if lo ≤ f * 4096 + i.val * 4 + k ∧ f * 4096 + i.val * 4 + k < lo + n then c
    else byteOf (m f i) k

def zeroFrame (m : Mem) (f : Nat) : Mem := fun g i => if g = f then 0 else m g i

def copyFrame (m : Mem) (dst src : Nat) : Mem := fun g i =>
  if g = dst then m src i else m g i

end Mem

def present (e : UInt32) : Prop := e &&& pteP ≠ 0

instance (e : UInt32) : Decidable (present e) :=
  inferInstanceAs (Decidable (e &&& pteP ≠ 0))

/-- The page frame an entry points to. -/
def frameOf (e : UInt32) : Nat := (pgnum e).toNat

/-- The x86 check of one entry: it must be present, writable for a write
(`CR0_WP` is set, so this binds the kernel too), and open to the user for a
user access. -/
def allows (e : UInt32) (write user : Bool) : Prop :=
  present e ∧ (write = true → e &&& pteW ≠ 0) ∧ (user = true → e &&& pteU ≠ 0)

instance (e : UInt32) (write user : Bool) : Decidable (allows e write user) :=
  inferInstanceAs (Decidable (_ ∧ _ ∧ _))

def pdxIdx (va : UInt32) : Fin 1024 := ⟨(pdx va).toNat, pdx_lt va⟩

def ptxIdx (va : UInt32) : Fin 1024 := ⟨(ptx va).toNat, ptx_lt va⟩

/-- `PDX(UVPT)`. -/
def uvptIdx : Fin 1024 := 957

def vpn (va : UInt32) : Vpn := (pdxIdx va, ptxIdx va)

namespace Machine

/-- The entry that the loaded page directory now has for the virtual page `n`. -/
def translation (s : Machine) (n : Vpn) : Option UInt32 :=
  match s.cr3 with
  | .entry => none
  | .pgdir pa =>
    let pde := s.mem (pa.toNat / 4096) n.1
    if present pde then
      let pte := s.mem (frameOf pde) n.2
      if present pte then some pte else none
    else none

/-- Memory changes. Until then the tables were as they are in `s`, and the
processor may have cached any of their entries. -/
@[simps -fullyApplied]
def setMem (s : Machine) (m : Mem) : Machine :=
  { s with
    mem := m
    tlb := fun n => if s.fills s.clock n then (s.translation n).or (s.tlb n) else s.tlb n
    clock := s.clock + 1 }

@[simps -fullyApplied]
def setEnvs (s : Machine) (envs : Fin nenv → Env) : Machine := { s with envs := envs }

/-- The page directory at `pa` is loaded, and nothing is cached. -/
@[simps -fullyApplied]
def loadPgdir (s : Machine) (pa : UInt32) : Machine :=
  { s with cr3 := .pgdir pa, tlb := fun _ => none }

/-- The hardware walk from the page directory in frame `dir`. -/
def walk (s : Machine) (dir : Nat) (va : UInt32) (write user : Bool) : Option Nat :=
  let pde := s.mem dir (pdxIdx va)
  if allows pde write user then
    let pte := s.mem (frameOf pde) (ptxIdx va)
    if allows pte write user then some ((pteAddr pte).toNat + (pgoff va).toNat)
    else none
  else none

/-- The length of the window at `KERNBASE`. -/
def window (s : Machine) : Nat :=
  match s.cr3 with
  | .entry => 4194304
  | .pgdir _ => 268435456

/-- The physical address behind a kernel pointer. `entry_pgdir` also maps the
first 4 MB at address 0, read-only. -/
def kernPa (s : Machine) (write : Bool) (va : UInt32) : Option Nat :=
  if kernbase.toNat ≤ va.toNat ∧ va.toNat - kernbase.toNat < s.window then
    some (va.toNat - kernbase.toNat)
  else
    match s.cr3 with
    | .entry => if write = false ∧ va < ptsize then some va.toNat else none
    | .pgdir _ => none

/-- The translation of any address in the current address space. -/
def xlat (s : Machine) (va : UInt32) (write : Bool) : Option Nat :=
  match s.cr3 with
  | .entry => s.kernPa write va
  | .pgdir pa => s.walk (pa.toNat / 4096) va write false

end Machine

def kload (p : UInt32) : Kern UInt32 := do
  let s ← Prog.read id
  match s.kernPa false p with
  | some pa => return s.mem (pa / 4096) (wordIdx pa)
  | none => Prog.halt (.pageFault p)

def kstore (p v : UInt32) : Kern Unit := do
  let s ← Prog.read id
  match s.kernPa true p with
  | some pa => Prog.update fun s => s.setMem (s.mem.setWord (pa / 4096) (wordIdx pa) v)
  | none => Prog.halt (.pageFault p)

/-- `memset(p, c, n)` on kernel memory. -/
def kmemset (p : UInt32) (c : UInt8) (n : Nat) : Kern Unit := do
  let s ← Prog.read id
  if n = 0 then
    return ()
  match s.kernPa true p with
  | some pa =>
    if pa + n ≤ s.window then
      Prog.update fun s => s.setMem (s.mem.fill pa n c)
    else
      Prog.halt (.pageFault p)
  | none => Prog.halt (.pageFault p)

/-- `memset` of the arrays that are kept apart from `mem`: only the accesses
themselves are checked. -/
def kcheckRange (p : UInt32) (n : Nat) : Kern Unit := do
  let s ← Prog.read id
  if n = 0 then
    return ()
  match s.kernPa true p with
  | some pa => if pa + n ≤ s.window then pure () else Prog.halt (.pageFault p)
  | none => Prog.halt (.pageFault p)

/-- `memcpy(dst, src, PGSIZE)` between two page-aligned kernel addresses. -/
def kcopyPage (dst src : UInt32) : Kern Unit := do
  let s ← Prog.read id
  match s.kernPa true dst, s.kernPa false src with
  | some d, some f => Prog.update fun s => s.setMem (s.mem.copyFrame (d / 4096) (f / 4096))
  | _, _ => Prog.halt (.pageFault dst)

def vloadByte (va : UInt32) : Kern UInt8 := do
  let s ← Prog.read id
  match s.xlat va false with
  | some pa => return s.mem.byte pa
  | none => Prog.halt (.pageFault va)

def vstoreByte (va : UInt32) (b : UInt8) : Kern Unit := do
  let s ← Prog.read id
  match s.xlat va true with
  | some pa => Prog.update fun s => s.setMem (s.mem.setByte pa b)
  | none => Prog.halt (.pageFault va)

def vload16 (va : UInt32) : Kern UInt32 := do
  let b0 ← vloadByte va
  let b1 ← vloadByte (va + 1)
  return UInt32.ofNat (b0.toNat + 256 * b1.toNat)

def vload32 (va : UInt32) : Kern UInt32 := do
  let b0 ← vloadByte va
  let b1 ← vloadByte (va + 1)
  let b2 ← vloadByte (va + 2)
  let b3 ← vloadByte (va + 3)
  return UInt32.ofNat (b0.toNat + 256 * b1.toNat + 65536 * b2.toNat + 16777216 * b3.toNat)

def invlpg (va : UInt32) : Kern Unit :=
  Prog.update fun s => { s with tlb := Function.update s.tlb (vpn va) none }

def lcr3 (pa : UInt32) : Kern Unit :=
  Prog.update fun s => s.loadPgdir pa

end Jos
