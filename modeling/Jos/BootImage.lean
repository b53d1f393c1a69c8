import Jos.Readseg
import Jos.Lib.Overlay

/-!
What the boot loader leaves of the segments of a kernel image. It loads whole sectors, so
a segment that begins inside a sector is loaded over the end of the segments before it.
-/

namespace Jos

structure Segment where
  pPa : UInt32
  pMemsz : UInt32
  pOffset : UInt32
deriving DecidableEq

/-- The image begins at the second sector. -/
def imageWord (disk : Disk) (off : Nat) : UInt32 := wordOf fun k => disk (512 + off + k)

def imageHalf (disk : Disk) (off : Nat) : UInt32 :=
  UInt32.ofNat ((disk (512 + off)).toNat + 256 * (disk (512 + off + 1)).toNat)

def imagePhoff (disk : Disk) : Nat := (imageWord disk 28).toNat

def imagePhnum (disk : Disk) : Nat := (imageHalf disk 44).toNat

def imageSegment (disk : Disk) (i : Nat) : Segment where
  pPa := imageWord disk (imagePhoff disk + 32 * i + 12)
  pMemsz := imageWord disk (imagePhoff disk + 32 * i + 20)
  pOffset := imageWord disk (imagePhoff disk + 32 * i + 4)

def imageSegments (disk : Disk) : List Segment :=
  (List.range (imagePhnum disk)).map (imageSegment disk)

/-- The loading of the segment writes the byte at `a`: it writes the sectors from the one
that holds `p_pa` on up to the end of the segment. -/
def Segment.Loads (seg : Segment) (a : Nat) : Prop :=
  seg.pPa.toNat / 512 * 512 ≤ a ∧ a < (seg.pPa.toNat + seg.pMemsz.toNat + 511) / 512 * 512

instance (seg : Segment) (a : Nat) : Decidable (seg.Loads a) :=
  inferInstanceAs (Decidable (_ ∧ _))

structure Segment.Fits (seg : Segment) : Prop where
  /-- Apart from the scratch area at `ELFHDR`. -/
  apart : seg.pPa.toNat + seg.pMemsz.toNat ≤ 65536 ∨ 69632 ≤ seg.pPa.toNat
  below : seg.pPa.toNat + seg.pMemsz.toNat ≤ 4294966784
  congruent : seg.pPa.toNat % 512 = seg.pOffset.toNat % 512

structure KernelImage (disk : Disk) : Prop where
  magic : imageWord disk 0 = elfMagic
  headers : imagePhoff disk + 32 * imagePhnum disk ≤ 4096
  fits : ∀ seg ∈ imageSegments disk, seg.Fits

/-- Every segment stands in memory as it stands on the disk. -/
def Intact (disk : Disk) (ram : Ram) : Prop :=
  ∀ seg ∈ imageSegments disk, ∀ k < seg.pMemsz.toNat,
    ram (seg.pPa.toNat + k) = disk (512 + seg.pOffset.toNat + k)

/-- Wherever a sector of a segment is loaded again for later segments, the last of them
has the same bytes on the disk. -/
def LastAgrees (disk : Disk) : Prop :=
  ∀ pre seg mid last rest, imageSegments disk = pre ++ seg :: mid ++ last :: rest →
    ∀ k < seg.pMemsz.toNat, last.Loads (seg.pPa.toNat + k) →
      (∀ later ∈ rest, ¬ later.Loads (seg.pPa.toNat + k)) →
      disk (512 + last.pOffset.toNat + (seg.pPa.toNat + k) - last.pPa.toNat) =
        disk (512 + seg.pOffset.toNat + k)

variable {disk : Disk} {ram : Ram} {seg : Segment} {fuel : Nat} {a : UInt32}

/-- What loading the segment writes. -/
def Segment.write (disk : Disk) (seg : Segment) (b : Nat) : Option UInt8 :=
  if seg.Loads b then some (disk (512 + seg.pOffset.toNat + b - seg.pPa.toNat)) else none

theorem Segment.write_loads {b : Nat} (h : seg.Loads b) :
    seg.write disk b = some (disk (512 + seg.pOffset.toNat + b - seg.pPa.toNat)) := if_pos h

theorem Segment.write_eq_none {b : Nat} : seg.write disk b = none ↔ ¬ seg.Loads b := by
  unfold Segment.write
  split <;> simp_all

theorem Segment.readseg (hbelow : seg.pPa.toNat + seg.pMemsz.toNat ≤ 4294966784)
    (hcong : seg.pPa.toNat % 512 = seg.pOffset.toNat % 512) (hfuel : 8388608 < fuel) :
    Jos.readseg fuel disk seg.pPa seg.pMemsz seg.pOffset ram =
      .ok (Overlay.put ram (seg.write disk)) := by
  have hend : (seg.pPa + seg.pMemsz).toNat = seg.pPa.toNat + seg.pMemsz.toNat := by
    rw [UInt32.toNat_add]
    omega
  have hcovers (b : Nat) : seg.Loads b ↔ seg.pPa.toNat / 512 * 512 ≤ b ∧
      b < seg.pPa.toNat / 512 * 512 + 512 * sectorsRead seg.pPa seg.pMemsz := by
    unfold Segment.Loads sectorsRead
    rw [hend]
    omega
  have hfew : sectorsRead seg.pPa seg.pMemsz < fuel := by
    unfold sectorsRead
    omega
  rw [readseg_run (by omega) hfew]
  refine congrArg Except.ok (funext fun b => ?_)
  rw [Overlay.put, Segment.write]
  by_cases hloads : seg.Loads b
  · have hlo := hloads.1
    rw [if_pos hloads, if_pos ((hcovers b).mp hloads), Option.getD_some]
    exact congrArg disk (by omega)
  · rw [if_neg hloads, if_neg fun hin => hloads ((hcovers b).mpr hin), Option.getD_none]

/-- The scratch area holds the first 4096 bytes of the image. -/
def Scratch (disk : Disk) (ram : Ram) : Prop :=
  ∀ b < 4096, ram (65536 + b) = disk (512 + b)

theorem Scratch.word {off : Nat} (h : Scratch disk ram) (ha : a.toNat = 65536 + off)
    (hoff : off + 4 ≤ 4096) : ramWord ram a = imageWord disk off := by
  apply wordOf_congr
  intro k hk
  have hsum : 65536 + off + k = 65536 + (off + k) := Nat.add_assoc ..
  rw [ha, hsum, h (off + k) (by omega), Nat.add_assoc]

theorem Scratch.half {off : Nat} (h : Scratch disk ram) (ha : a.toNat = 65536 + off)
    (hoff : off + 2 ≤ 4096) : ramHalf ram a = imageHalf disk off := by
  have hsum : 65536 + off + 1 = 65536 + (off + 1) := Nat.add_assoc ..
  rw [ramHalf, imageHalf, ha, hsum, h off (by omega), h (off + 1) (by omega), Nat.add_assoc 512]

theorem Scratch.put (h : Scratch disk ram) (hseg : seg.Fits) :
    Scratch disk (Overlay.put ram (seg.write disk)) := by
  intro b hb
  have hout : ¬ seg.Loads (65536 + b) := by
    rintro ⟨hlo, hhi⟩
    have hapart := hseg.apart
    omega
  rw [Overlay.put_none (Segment.write_eq_none.mpr hout), h b hb]

theorem bootmainLoop_run (h : KernelImage disk) {eph ph : UInt32} {i m : Nat}
    (hm : i + m = imagePhnum disk) (hph : ph.toNat = 65536 + (imagePhoff disk + 32 * i))
    (heph : eph.toNat = 65536 + (imagePhoff disk + 32 * imagePhnum disk))
    (hscratch : Scratch disk ram) (hfuel : 8388608 < fuel) (hn : m < n) :
    bootmainLoop fuel disk eph n ph ram = .ok (Overlay.putAll ram
      ((List.range' i m).map fun j => (imageSegment disk j).write disk)) := by
  have hheaders := h.headers
  induction m generalizing i n ph ram with
  | zero =>
    obtain ⟨n, rfl⟩ := Nat.exists_eq_succ_of_ne_zero (Nat.ne_zero_of_lt hn)
    have hlt : ¬ ph < eph := by
      rw [UInt32.lt_iff_toNat_lt]
      omega
    rw [bootmainLoop, if_neg hlt]
    rfl
  | succ m ih =>
    obtain ⟨n, rfl⟩ := Nat.exists_eq_succ_of_ne_zero (Nat.ne_zero_of_lt hn)
    have hlt : ph < eph := by
      rw [UInt32.lt_iff_toNat_lt]
      omega
    have hfield (c : UInt32) (hc : c.toNat + 4 ≤ 32) :
        ramWord ram (ph + c) = imageWord disk (imagePhoff disk + 32 * i + c.toNat) := by
      refine hscratch.word ?_ (by omega)
      rw [UInt32.toNat_add]
      omega
    have hmem : imageSegment disk i ∈ imageSegments disk :=
      List.mem_map.mpr ⟨i, List.mem_range.mpr (by omega), rfl⟩
    have hfits := h.fits _ hmem
    have hnext : (ph + sizeofProghdr).toNat = 65536 + (imagePhoff disk + 32 * (i + 1)) := by
      have hsize : sizeofProghdr.toNat = 32 := rfl
      rw [UInt32.toNat_add, hsize]
      omega
    have hload : readseg fuel disk (imageSegment disk i).pPa (imageSegment disk i).pMemsz
        (imageSegment disk i).pOffset ram =
          .ok (Overlay.put ram ((imageSegment disk i).write disk)) :=
      Segment.readseg hfits.below hfits.congruent hfuel
    rw [bootmainLoop, if_pos hlt, hfield 12 (by decide), hfield 20 (by decide),
      hfield 4 (by decide)]
    change (readseg fuel disk (imageSegment disk i).pPa (imageSegment disk i).pMemsz
      (imageSegment disk i).pOffset ram >>= _) = _
    rw [hload]
    exact ih (by omega) hnext (hscratch.put hfits) (by omega)

theorem bootmain_run (h : KernelImage disk) (ram : Ram) (hfuel : 8388608 < fuel) :
    ∃ scratched, bootmain fuel disk ram = .ok (some (Overlay.putAll scratched
      ((imageSegments disk).map fun seg => seg.write disk))) := by
  have hheaders := h.headers
  have hhdr : elfhdr.toNat = 65536 := rfl
  let header : Segment := ⟨elfhdr, sectsize * 8, 0⟩
  have hload : readseg fuel disk header.pPa header.pMemsz header.pOffset ram =
      .ok (Overlay.put ram (header.write disk)) :=
    Segment.readseg (by decide) (by decide) hfuel
  have hscratch : Scratch disk (Overlay.put ram (header.write disk)) := by
    intro b hb
    have hloads : header.Loads (65536 + b) := by
      change 65536 / 512 * 512 ≤ 65536 + b ∧ 65536 + b < (65536 + 4096 + 511) / 512 * 512
      omega
    rw [Overlay.put_some (Segment.write_loads hloads)]
    change disk (512 + 0 + (65536 + b) - 65536) = disk (512 + b)
    exact congrArg disk (by omega)
  refine ⟨Overlay.put ram (header.write disk), ?_⟩
  have hmagic : ramWord (Overlay.put ram (header.write disk)) elfhdr = elfMagic :=
    (hscratch.word (show elfhdr.toNat = 65536 + 0 from rfl) (by omega)).trans h.magic
  have hphoff := hscratch.word (show (elfhdr + 28).toNat = 65536 + 28 from rfl) (by omega)
  have hphnum := hscratch.half (show (elfhdr + 44).toNat = 65536 + 44 from rfl) (by omega)
  have hph : (elfhdr + imageWord disk 28).toNat = 65536 + (imagePhoff disk + 32 * 0) := by
    have hlt : (imageWord disk 28).toNat ≤ 4096 := by
      unfold imagePhoff at hheaders
      omega
    rw [UInt32.toNat_add, hhdr, imagePhoff]
    omega
  have heph : (elfhdr + imageWord disk 28 + sizeofProghdr * imageHalf disk 44).toNat =
      65536 + (imagePhoff disk + 32 * imagePhnum disk) := by
    have hsize : sizeofProghdr.toNat = 32 := rfl
    have hprod : (sizeofProghdr * imageHalf disk 44).toNat = 32 * imagePhnum disk := by
      rw [UInt32.toNat_mul, hsize]
      unfold imagePhnum at hheaders ⊢
      omega
    rw [UInt32.toNat_add, hprod, hph]
    omega
  have hloop := bootmainLoop_run h (i := 0) (n := fuel) (Nat.zero_add _) hph heph hscratch hfuel
    (by omega)
  rw [bootmain]
  change (readseg fuel disk header.pPa header.pMemsz header.pOffset ram >>= _) = _
  rw [hload]
  change (if ramWord _ elfhdr ≠ elfMagic then _ else _) = _
  rw [if_neg (not_not.mpr hmagic), hphoff, hphnum]
  rw [hloop, imageSegments, List.map_map, List.range_eq_range']
  rfl

theorem Segment.loads_inside {k : Nat} (hk : k < seg.pMemsz.toNat) :
    seg.Loads (seg.pPa.toNat + k) := by
  unfold Segment.Loads
  omega

/-- The last segment that is loaded over a byte decides it. -/
theorem ram_last {segs rest : List Segment} {last : Segment} {b : Nat} (hlast : last.Loads b)
    (hrest : ∀ later ∈ rest, ¬ later.Loads b) :
    Overlay.putAll ram ((segs ++ last :: rest).map fun seg => seg.write disk) b =
      disk (512 + last.pOffset.toNat + b - last.pPa.toNat) := by
  rw [List.map_append, List.map_cons]
  refine Overlay.putAll_last (Segment.write_loads hlast) ?_
  intro w hw
  obtain ⟨later, hlater, rfl⟩ := List.mem_map.mp hw
  exact Segment.write_eq_none.mpr (hrest later hlater)

theorem intact_iff_lastAgrees :
    Intact disk (Overlay.putAll ram ((imageSegments disk).map fun seg => seg.write disk)) ↔
      LastAgrees disk := by
  constructor
  · intro h pre seg mid last rest hsegs k hk hlast hrest
    have hmem : seg ∈ imageSegments disk := by simp [hsegs]
    rw [← h seg hmem k hk, hsegs, ram_last hlast hrest]
  · intro h seg hmem k hk
    obtain ⟨pre, post, hsegs⟩ := List.append_of_mem hmem
    by_cases hagain : ∃ later ∈ post, later.Loads (seg.pPa.toNat + k)
    · obtain ⟨mid, last, rest, rfl, hlast, hrest⟩ := Overlay.exists_last hagain
      have hsplit : imageSegments disk = pre ++ seg :: mid ++ last :: rest := by
        rw [hsegs, List.append_assoc, List.cons_append]
      rw [hsplit, ram_last hlast hrest, h pre seg mid last rest hsplit k hk hlast hrest]
    · simp only [not_exists, not_and] at hagain
      rw [hsegs, ram_last (Segment.loads_inside hk) hagain]
      exact congrArg disk (by omega)

/-- The boot loader ends, and every segment of the image stands in memory exactly when
wherever the last segment loaded into a sector is not the one that a byte belongs to the
disk has the same byte for both. -/
theorem bootmain_intact_iff (h : KernelImage disk) (ram : Ram) (hfuel : 8388608 < fuel) :
    ∃ ram', bootmain fuel disk ram = .ok (some ram') ∧ (Intact disk ram' ↔ LastAgrees disk) := by
  obtain ⟨scratched, hrun⟩ := bootmain_run h ram hfuel
  exact ⟨_, hrun, intact_iff_lastAgrees⟩

/-- An image of two segments of 16 bytes each in one sector of memory; the second one
begins at `offset` of the image. -/
def twoSegments (offset : UInt32) : Disk := fun b =>
  if b < 516 then byteOf elfMagic (b - 512)
  else if b = 540 then 52
  else if b = 556 then 2
  else if 568 ≤ b ∧ b < 572 then byteOf 0x1000 (b - 568)
  else if 576 ≤ b ∧ b < 580 then byteOf 0x100000 (b - 576)
  else if 584 ≤ b ∧ b < 588 then byteOf 16 (b - 584)
  else if 600 ≤ b ∧ b < 604 then byteOf offset (b - 600)
  else if 608 ≤ b ∧ b < 612 then byteOf 0x100010 (b - 608)
  else if 616 ≤ b ∧ b < 620 then byteOf 16 (b - 616)
  else if b = 4608 then 1
  else 0

theorem twoSegments_image {offset : UInt32}
    (hsegs : imageSegments (twoSegments offset) =
      [⟨0x100000, 16, 0x1000⟩, ⟨0x100010, 16, offset⟩])
    (hfits : (⟨0x100010, 16, offset⟩ : Segment).Fits) : KernelImage (twoSegments offset) := by
  refine ⟨?_, ?_, ?_⟩
  · rw [← wordOf_byteOf elfMagic]
    apply wordOf_congr
    intro k hk
    have hindex : 512 + 0 + k - 512 = k := by omega
    rw [twoSegments, if_pos (by omega), hindex]
  · have hphoff : imagePhoff (twoSegments offset) = 52 := rfl
    have hphnum : imagePhnum (twoSegments offset) = 2 := rfl
    omega
  · intro seg hseg
    rw [hsegs] at hseg
    rcases List.mem_cons.mp hseg with rfl | hseg
    · exact ⟨by decide, by decide, by decide⟩
    · obtain rfl := List.mem_singleton.mp hseg
      exact hfits

theorem bootmain_intact_iff_twoSegments :
    ∃ ram', bootmain 8388609 (twoSegments 0x1010) (fun _ => 0) = .ok (some ram') ∧
      Intact (twoSegments 0x1010) ram' := by
  have hsegs : imageSegments (twoSegments 0x1010) =
      [⟨0x100000, 16, 0x1000⟩, ⟨0x100010, 16, 0x1010⟩] := rfl
  obtain ⟨ram', hrun, hiff⟩ := @bootmain_intact_iff _ 8388609
    (twoSegments_image hsegs ⟨by decide, by decide, by decide⟩) (fun _ => 0) (by omega)
  refine ⟨ram', hrun, hiff.mpr ?_⟩
  intro pre seg mid last rest hsplit k hk _ _
  rw [hsegs, List.append_assoc] at hsplit
  have hpre : pre = [] := by
    have hlen := congrArg List.length hsplit
    simp only [List.length_cons, List.length_nil, List.length_append] at hlen
    exact List.eq_nil_of_length_eq_zero (by omega)
  subst hpre
  rw [List.nil_append, List.cons_append, List.cons.injEq] at hsplit
  obtain ⟨rfl, hsplit⟩ := hsplit
  have hlast : last = ⟨0x100010, 16, 0x1010⟩ := by
    have hmem : last ∈ mid ++ last :: rest := by simp
    rw [← hsplit] at hmem
    exact List.mem_singleton.mp hmem
  subst hlast
  -- the two places differ by as much as the segments do in memory
  exact congrArg (twoSegments 0x1010) (show 512 + 4112 + (1048576 + k) - 1048592 = 512 + 4096 + k by
    omega)

/-- The second segment of the sector is loaded over the first one from another place of
the disk. -/
theorem shared_sector_damaged :
    KernelImage (twoSegments 0x2010) ∧
      (imageSegments (twoSegments 0x2010)).Pairwise
        (fun s t => s.pPa.toNat + s.pMemsz.toNat ≤ t.pPa.toNat) ∧
      ∃ ram', bootmain 8388609 (twoSegments 0x2010) (fun _ => 0) = .ok (some ram') ∧
        ¬ Intact (twoSegments 0x2010) ram' := by
  have hsegs : imageSegments (twoSegments 0x2010) =
      [⟨0x100000, 16, 0x1000⟩, ⟨0x100010, 16, 0x2010⟩] := rfl
  have himage := twoSegments_image hsegs ⟨by decide, by decide, by decide⟩
  obtain ⟨scratched, hrun⟩ := @bootmain_run _ 8388609 himage (fun _ => 0) (by omega)
  refine ⟨himage, ?_, _, hrun, ?_⟩
  · rw [hsegs]
    simp
  · rw [intact_iff_lastAgrees]
    intro hagrees
    have hbyte := hagrees [] _ [] _ [] hsegs 0 (by decide) (by decide) (by simp)
    exact absurd hbyte (by decide)

end Jos
