import Jos.Env

/-!
Loading a program image into an environment: `region_alloc`, `load_icode` and
`env_create` of `kern/env.c`, with the ELF layout of `inc/elf.h` and
`memmove` and `memset` of `lib/string.c`. While the segments are copied the
page directory of the environment is loaded, so every access to the image and
to the segments goes through the walk of the loaded directory.
-/

namespace Jos

def elfMagic : UInt32 := 0x464C457F
def elfProgLoad : UInt32 := 1

/-- `sizeof(struct Proghdr)`. -/
def sizeofProghdr : UInt32 := 32

def copyForward (d s : UInt32) : Nat → Kern Unit
  | 0 => pure ()
  | n + 1 => do
    vstoreByte d (← vloadByte s)
    copyForward (d + 1) (s + 1) n

/-- Copies downwards from `d + n - 1` and `s + n - 1`. -/
def copyBackward (d s : UInt32) : Nat → Kern Unit
  | 0 => pure ()
  | n + 1 => do
    vstoreByte (d + UInt32.ofNat n) (← vloadByte (s + UInt32.ofNat n))
    copyBackward d s n

def memmove (dst src n : UInt32) : Kern Unit :=
  if src < dst ∧ dst < src + n then copyBackward dst src n.toNat
  else copyForward dst src n.toNat

def memcpy (dst src n : UInt32) : Kern Unit := memmove dst src n

def memsetLoop (p : UInt32) (c : UInt8) : Nat → Kern Unit
  | 0 => pure ()
  | n + 1 => do
    vstoreByte p c
    memsetLoop (p + 1) c n

def memset (v : UInt32) (c : UInt8) (n : UInt32) : Kern Unit := memsetLoop v c n.toNat

def regionAllocLoop (e : Fin nenv) : Nat → UInt32 → Kern Unit
  | 0, _ => pure ()
  | n + 1, vaStart => do
    match ← pageAlloc 0 with
    | none => panic "region_alloc: %e"
    | some pginfo =>
      let r ← pageInsert (← Prog.read fun s => (s.envs e).envPgdir) pginfo vaStart
        (pteW ||| pteU ||| pteP)
      if r < 0 then panic "region_alloc: %e"
      else regionAllocLoop e n (vaStart + pgsize)

def regionAlloc (e : Fin nenv) (va len : UInt32) : Kern Unit :=
  regionAllocLoop e (roundUp len pgsize / pgsize).toNat (roundDown va pgsize)

-- `ph->p_…`: the members of the program header at `ph`.

def phType (ph : UInt32) : Kern UInt32 := vload32 ph
def phOffset (ph : UInt32) : Kern UInt32 := vload32 (ph + 4)
def phVa (ph : UInt32) : Kern UInt32 := vload32 (ph + 8)
def phFilesz (ph : UInt32) : Kern UInt32 := vload32 (ph + 16)
def phMemsz (ph : UInt32) : Kern UInt32 := vload32 (ph + 20)

/-- The body of the loop of `load_icode`; the header is read again at every
use, as the segment may be copied over it. -/
def loadSegment (e : Fin nenv) (binary ph : UInt32) : Kern Unit := do
  if (← phType ph) = elfProgLoad then
    if (← phFilesz ph) > (← phMemsz ph) then
      panic "load_icode: file size is greater than memory size"
    else
      regionAlloc e (← phVa ph) (← phMemsz ph)
      memcpy (← phVa ph) (binary + (← phOffset ph)) (← phFilesz ph)
      memset ((← phVa ph) + (← phFilesz ph)) 0 ((← phMemsz ph) - (← phFilesz ph))

/-- The loop `for (; ph < eph; ph++)`; `e_phnum` rounds reach `eph`. -/
def loadSegments (e : Fin nenv) (binary eph : UInt32) : Nat → UInt32 → Kern Unit
  | 0, _ => pure ()
  | n + 1, ph => do
    if ph < eph then
      loadSegment e binary ph
      loadSegments e binary eph n (ph + sizeofProghdr)

def loadIcode (e : Fin nenv) (binary : UInt32) : Kern Unit := do
  if (← vload32 binary) ≠ elfMagic then
    panic "load_icode: not an ELF file"
  else
    let ePhoff ← vload32 (binary + 28)
    let ePhnum ← vload16 (binary + 44)
    let ph := binary + ePhoff
    let eph := ph + sizeofProghdr * ePhnum
    lcr3 (← paddr (← Prog.read fun s => (s.envs e).envPgdir))
    loadSegments e binary eph ePhnum.toNat ph
    let eEntry ← vload32 (binary + 24)
    setEnv e fun env => { env with envTf := { env.envTf with tfEip := eEntry } }
    regionAlloc e (ustacktop - pgsize) pgsize
    lcr3 (← paddr (← Prog.read (·.kernPgdir)))

def envCreate (binary : UInt32) (type : EnvType) : Kern (Option (Fin nenv)) := do
  match ← envAlloc 0 with
  | (0, some e) =>
    loadIcode e binary
    setEnv e fun env => { env with envType := type }
    return some e
  | _ => panic "env_create failed: env_alloc failed.\n"

end Jos
