import Jos.Load
import Jos.CString

/-!
The boot loader of `boot/main.c`. It runs without paging, so memory is given by physical
address. The disk answers every read of a sector; waiting for it is left out, as is what
`bootmain` does once it has found no kernel.
-/

namespace Jos

def sectsize : UInt32 := 512
def elfhdr : UInt32 := 0x10000

abbrev Disk : Type := Nat → UInt8
abbrev Ram : Type := Nat → UInt8

/-- The sector that the four address registers of the drive name. -/
def lba (r3 r4 r5 r6 : UInt8) : Nat :=
  r3.toNat + 256 * r4.toNat + 65536 * r5.toNat + 16777216 * (r6.toNat % 16)

def readsect (disk : Disk) (dst offset : UInt32) (ram : Ram) : Ram :=
  let sector := lba offset.toUInt8 (offset >>> 8).toUInt8 (offset >>> 16).toUInt8
    ((offset >>> 24) ||| 0xE0).toUInt8
  fun a =>
    if dst.toNat ≤ a ∧ a < dst.toNat + sectsize.toNat then
      disk (sector * sectsize.toNat + (a - dst.toNat))
    else ram a

/-- `while (pa < end_pa)`. -/
def readsegLoop (disk : Disk) (endPa : UInt32) : Nat → UInt32 → UInt32 → Ram → Except Fault Ram
  | 0, _, _, _ => .error .fuel
  | n + 1, pa, offset, ram =>
    if pa < endPa then
      readsegLoop disk endPa n (pa + sectsize) (offset + 1) (readsect disk pa offset ram)
    else .ok ram

def readseg (fuel : Nat) (disk : Disk) (pa count offset : UInt32) (ram : Ram) :
    Except Fault Ram :=
  readsegLoop disk (pa + count) fuel (pa &&& ~~~(sectsize - 1)) (offset / sectsize + 1) ram

def ramWord (ram : Ram) (a : UInt32) : UInt32 := wordOf fun k => ram (a.toNat + k)

def ramHalf (ram : Ram) (a : UInt32) : UInt32 :=
  UInt32.ofNat ((ram a.toNat).toNat + 256 * (ram (a.toNat + 1)).toNat)

/-- `for (; ph < eph; ph++)`. -/
def bootmainLoop (fuel : Nat) (disk : Disk) (eph : UInt32) :
    Nat → UInt32 → Ram → Except Fault Ram
  | 0, _, _ => .error .fuel
  | n + 1, ph, ram =>
    if ph < eph then do
      let ram ← readseg fuel disk (ramWord ram (ph + 12)) (ramWord ram (ph + 20))
        (ramWord ram (ph + 4)) ram
      bootmainLoop fuel disk eph n (ph + sizeofProghdr) ram
    else .ok ram

/-- Memory at the call of the kernel; nothing stands for `bad`. -/
def bootmain (fuel : Nat) (disk : Disk) (ram : Ram) : Except Fault (Option Ram) := do
  let ram ← readseg fuel disk elfhdr (sectsize * 8) 0 ram
  if ramWord ram elfhdr ≠ elfMagic then
    return none
  else
    let ph := elfhdr + ramWord ram (elfhdr + 28)
    let eph := ph + sizeofProghdr * ramHalf ram (elfhdr + 44)
    return some (← bootmainLoop fuel disk eph fuel ph ram)

end Jos
