import Jos.BootImage
import Jos.PowerOn

/-!
From the disk to user mode. `bootmain` loads the kernel with the program inside it, and `i386_init`
hands the program to the first environment: what the user reads is what the disk held.
-/

namespace Jos

variable {disk : Disk} {ram : Ram} {image : Image} {nvram : Nat → UInt8} {m m' : Mem}
  {binary edata : UInt32} {fuel f : Nat} {s : Machine}

/-- The memory that the boot loader leaves to the kernel. -/
def memOfRam (ram : Ram) : Mem := fun f i => wordOf fun k => ram (f * 4096 + i.val * 4 + k)

/-- The frame, the word and the byte in it make up the address. -/
theorem wordIdx_parts (pa : Nat) : pa / 4096 * 4096 + (wordIdx pa).val * 4 + pa % 4 = pa := by
  have hword : (wordIdx pa).val = pa % 4096 / 4 := rfl
  omega

theorem memOfRam_byte (ram : Ram) (pa : Nat) : (memOfRam ram).byte pa = ram pa := by
  rw [Mem.byte, memOfRam, byteOf_wordOf _ _ (Nat.mod_lt _ (by decide)), wordIdx_parts]

theorem Mem.fill_byte (m : Mem) (lo n : Nat) (c : UInt8) (pa : Nat) :
    (m.fill lo n c).byte pa = if lo ≤ pa ∧ pa < lo + n then c else m.byte pa := by
  rw [Mem.byte, Mem.fill, byteOf_wordOf _ _ (Nat.mod_lt _ (by decide)), wordIdx_parts]
  rfl

/-- Memory after the first statement of `i386_init`, `memset(edata, 0, end - edata)`. -/
def Image.clearBss (image : Image) (edata : UInt32) (m : Mem) : Mem :=
  m.fill (edata.toNat - kernbase.toNat) (image.kend.toNat - edata.toNat) 0

theorem Image.clearBss_byte (image : Image) (m : Mem) {a : Nat} (hlo : kernbase.toNat ≤ a)
    (hhi : a < image.kend.toNat) :
    kernByte (image.clearBss edata m) a = if edata.toNat ≤ a then 0 else kernByte m a := by
  rw [kernByte, Image.clearBss, Mem.fill_byte]
  by_cases hbss : edata.toNat ≤ a
  · rw [if_pos hbss, if_pos (by omega)]
  · rw [if_neg hbss, if_neg (by omega), kernByte]

/-- The segments on the disk hold the kernel image of `m` below `edata`; from there on `m` is
clear. -/
structure HoldsImage (disk : Disk) (image : Image) (edata : UInt32) (m : Mem) : Prop where
  data a : kernbase.toNat + extphysmem.toNat ≤ a → a < edata.toNat → a < image.kend.toNat →
    ∃ seg ∈ imageSegments disk, ∃ k < seg.pMemsz.toNat,
      seg.pPa.toNat + k = a - kernbase.toNat ∧
        disk (512 + seg.pOffset.toNat + k) = kernByte m a
  bss a : kernbase.toNat + extphysmem.toNat ≤ a → edata.toNat ≤ a → a < image.kend.toNat →
    kernByte m a = 0

theorem Intact.sameImage (h : Intact disk ram) (hheld : HoldsImage disk image edata m) :
    SameImage image m (image.clearBss edata (memOfRam ram)) := by
  intro a hlo hhi
  rw [image.clearBss_byte _ (by omega) hhi]
  by_cases hbss : edata.toNat ≤ a
  · rw [if_pos hbss, hheld.bss a hlo hbss hhi]
  · obtain ⟨seg, hmem, k, hk, hplace, hbyte⟩ := hheld.data a hlo (by omega) hhi
    rw [if_neg hbss, kernByte, memOfRam_byte, ← hplace, h seg hmem k hk, hbyte]

theorem ProgramEntered.of_image (h : ProgramEntered f m' binary s) (himage : SameImage image m m')
    (hprogram : ProgramFits image m binary) : ProgramEntered f m binary s where
  user := h.user
  running := h.running
  tf := by
    rw [h.tf, himage.eEntry hprogram.toHeadersInside]
  loaded := h.loaded.of_image himage hprogram rfl

theorem bootmain_intact (hdisk : KernelImage disk) (hlast : LastAgrees disk) (ram : Ram)
    (hfuel : 8388608 < fuel) :
    ∃ ram', bootmain fuel disk ram = .ok (some ram') ∧ Intact disk ram' := by
  obtain ⟨scratched, hboot⟩ := bootmain_run hdisk ram hfuel
  exact ⟨_, hboot, intact_iff_lastAgrees.mpr hlast⟩

/-- The whole way: from a disk with a kernel that holds the program `binary` the boot loader and
`i386_init` lead to user mode at the entry point of the program, which is loaded as it stands in
the kernel on the disk. -/
theorem disk_reaches_user (hdisk : KernelImage disk) (hlast : LastAgrees disk)
    (hheld : HoldsImage disk image edata m) (h : Roomy image nvram)
    (hn : (detected nvram).1 % 512 = 0) (hprogram : ProgramFits image m binary)
    (hapart : Apart (loadable m binary))
    (hroom : pagesNeeded (loadable m binary) + 67 < (initList (detected nvram).1
      (detected nvram).2 (image.firstFree (detected nvram).1)).length)
    (ram : Ram) (hfuel : 8388608 < fuel) :
    ∃ ram', bootmain fuel disk ram = .ok (some ram') ∧
      ∃ f s, (i386Init binary).run (Machine.atEntry image nvram
          (image.clearBss edata (memOfRam ram'))) = .ok ((), s) ∧
        ProgramEntered f m binary s := by
  obtain ⟨ram', hboot, hintact⟩ := bootmain_intact hdisk hlast ram hfuel
  have himage := hintact.sameImage hheld
  refine ⟨ram', hboot, ?_⟩
  generalize image.clearBss edata (memOfRam ram') = mem at himage ⊢
  have hloadable := himage.loadable hprogram.toHeadersInside
  obtain ⟨l, s₀, t, fl, fl', u, hrun, hdone⟩ := h.done mem hn
  have hlen := hdone.free_length
  obtain ⟨f, s, hinit, -, hentered⟩ := hdone.i386Init h hrun (himage.programFits hprogram)
    (hloadable ▸ hapart) (by rw [hloadable]; omega)
  exact ⟨f, s, hinit, hentered.of_image himage hprogram⟩

theorem fileKernel_clear (k : Nat) {pa : Nat} (hlo : 258 ≤ pa / 4096) (hhi : pa / 4096 < 280) :
    (fileKernel k).mem.byte pa = 0 := by
  have hword (i : Fin 1024) : (fileKernel k).mem (pa / 4096) i = 0 := by
    change (if pa / 4096 = 257 then _ else freshMem (pa / 4096) i) = 0
    rw [if_neg (by omega), freshMem, if_neg (by omega), if_neg (by omega)]
  rw [Mem.byte, hword]
  simp [byteOf]

/-- One segment of 8192 bytes, at 4096 on the disk and at 1 MB in memory: what `fileKernel` has
there. The rest of the kernel is clear. -/
def fileDisk : Disk := fun b =>
  if b < 516 then byteOf elfMagic (b - 512)
  else if b = 540 then 52
  else if b = 556 then 1
  else if 568 ≤ b ∧ b < 572 then byteOf 0x1000 (b - 568)
  else if 576 ≤ b ∧ b < 580 then byteOf 0x100000 (b - 576)
  else if 584 ≤ b ∧ b < 588 then byteOf 0x2000 (b - 584)
  else if 4608 ≤ b then (fileKernel 650).mem.byte (b + 1043968)
  else 0

theorem fileDisk_segments : imageSegments fileDisk = [⟨0x100000, 0x2000, 0x1000⟩] := rfl

theorem fileDisk_image : KernelImage fileDisk where
  magic := by
    rw [← wordOf_byteOf elfMagic]
    apply wordOf_congr
    intro k hk
    have hindex : 512 + 0 + k - 512 = k := by omega
    rw [fileDisk, if_pos (by omega), hindex]
  headers := by
    have hphoff : imagePhoff fileDisk = 52 := rfl
    have hphnum : imagePhnum fileDisk = 1 := rfl
    omega
  fits seg hseg := by
    rw [fileDisk_segments] at hseg
    obtain rfl := List.mem_singleton.mp hseg
    exact ⟨by decide, by decide, by decide⟩

theorem fileDisk_lastAgrees : LastAgrees fileDisk := by
  intro pre seg mid last rest hsegs
  have hlen := congrArg List.length hsegs
  rw [fileDisk_segments] at hlen
  simp only [List.length_cons, List.length_nil, List.length_append] at hlen
  omega

theorem fileDisk_holds :
    HoldsImage fileDisk sampleImage 0xF0102000 (fileKernel 650).mem := by
  have hkb : kernbase.toNat = 4026531840 := rfl
  have hext : extphysmem.toNat = 1048576 := rfl
  have hedata : (0xF0102000 : UInt32).toNat = 4027588608 := rfl
  have hkend : sampleImage.kend.toNat = 4027677600 := rfl
  have hpa : (0x100000 : UInt32).toNat = 1048576 := rfl
  have hsize : (0x2000 : UInt32).toNat = 8192 := rfl
  have hoffset : (0x1000 : UInt32).toNat = 4096 := rfl
  constructor
  · intro a hlo hhi _
    rw [hkb, hext] at hlo
    refine ⟨⟨0x100000, 0x2000, 0x1000⟩, ?_, a - 4027580416, ?_, ?_, ?_⟩
    · rw [fileDisk_segments]
      exact List.mem_singleton_self _
    · rw [hsize]
      omega
    · rw [hpa, hkb]
      omega
    · have hindex : 512 + 4096 + (a - 4027580416) + 1043968 = a - 4026531840 := by omega
      rw [hoffset, fileDisk, if_neg (by omega), if_neg (by omega), if_neg (by omega),
        if_neg (by omega), if_neg (by omega), if_neg (by omega), if_pos (by omega), hindex,
        kernByte, hkb]
  · intro a _ hbss hhi
    rw [kernByte, hkb]
    exact fileKernel_clear 650 (by omega) (by omega)

theorem disk_reaches_user_file :
    ∃ ram', bootmain 8388609 fileDisk (fun _ => 0) = .ok (some ram') ∧
      ∃ f s, (i386Init 0xF0101000).run (Machine.atEntry sampleImage (sampleNvram 1792)
        (sampleImage.clearBss 0xF0102000 (memOfRam ram'))) = .ok ((), s) ∧
        ProgramEntered f (fileKernel 650).mem 0xF0101000 s := by
  refine disk_reaches_user fileDisk_image fileDisk_lastAgrees fileDisk_holds sampleNvram_roomy
    (by decide) (fileKernel_fits 650) ?_ sampleNvram_room _ (by omega)
  rw [fileKernel_loadable]
  exact List.pairwise_singleton _ _

end Jos
