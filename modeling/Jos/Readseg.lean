import Jos.Access
import Jos.Bootmain

/-!
What `readseg` reads. It compares 32-bit addresses, so its loop ends only where the end of the
range is not within the last sector of the address space.
-/

namespace Jos

variable {disk : Disk} {ram : Ram} {fuel n : Nat} {pa endPa count offset : UInt32}

theorem lba_offset (offset : UInt32) (h : offset.toNat < 268435456) :
    lba offset.toUInt8 (offset >>> 8).toUInt8 (offset >>> 16).toUInt8
      ((offset >>> 24) ||| 0xE0).toUInt8 = offset.toNat := by
  have hhigh : ((offset >>> 24) ||| 0xE0).toUInt8.toNat % 16 = offset.toNat / 16777216 := by
    have hshift : (offset >>> 24).toNat = offset.toNat / 16777216 := by
      rw [UInt32.toNat_shiftRight, Nat.shiftRight_eq_div_pow]
      rfl
    have hor : ((offset >>> 24) ||| 0xE0).toNat = offset.toNat / 16777216 + 224 := by
      have hbits : (0xE0 : UInt32).toNat = 224 := rfl
      have hsum := @or_eq_add 224 (offset.toNat / 16777216) 4 (by decide) (by omega)
      rw [UInt32.toNat_or, hshift, hbits, Nat.or_comm, hsum]
      omega
    rw [UInt32.toNat_toUInt8, hor]
    omega
  have h8 : (offset >>> 8).toNat = offset.toNat / 256 := by
    rw [UInt32.toNat_shiftRight, Nat.shiftRight_eq_div_pow]
    rfl
  have h16 : (offset >>> 16).toNat = offset.toNat / 65536 := by
    rw [UInt32.toNat_shiftRight, Nat.shiftRight_eq_div_pow]
    rfl
  rw [lba, hhigh, UInt32.toNat_toUInt8, UInt32.toNat_toUInt8, UInt32.toNat_toUInt8, h8, h16]
  omega

theorem readsect_eq (h : offset.toNat < 268435456) :
    readsect disk pa offset ram = fun b =>
      if pa.toNat ≤ b ∧ b < pa.toNat + 512 then disk (512 * offset.toNat + (b - pa.toNat))
      else ram b := by
  have hsize : sectsize.toNat = 512 := rfl
  funext b
  simp only [readsect, lba_offset offset h, hsize, Nat.mul_comm 512]

/-- The loop loads the `n` sectors that are left. -/
theorem readsegLoop_run (hpa : pa.toNat % 512 = 0) (hend : endPa.toNat ≤ 4294966784)
    (hn : n = (endPa.toNat + 511 - pa.toNat) / 512) (hoffset : offset.toNat + n < 268435456)
    (hfuel : n < fuel) :
    readsegLoop disk endPa fuel pa offset ram = .ok fun b =>
      if pa.toNat ≤ b ∧ b < pa.toNat + 512 * n then disk (512 * offset.toNat + (b - pa.toNat))
      else ram b := by
  induction n generalizing fuel pa offset ram with
  | zero =>
    obtain ⟨fuel, rfl⟩ := Nat.exists_eq_succ_of_ne_zero (Nat.ne_zero_of_lt hfuel)
    have hlt : ¬ pa < endPa := by
      rw [UInt32.lt_iff_toNat_lt]
      omega
    rw [readsegLoop, if_neg hlt]
    refine congrArg Except.ok (funext fun b => ?_)
    rw [if_neg (by omega)]
  | succ n ih =>
    obtain ⟨fuel, rfl⟩ := Nat.exists_eq_succ_of_ne_zero (Nat.ne_zero_of_lt hfuel)
    have hsize : sectsize.toNat = 512 := rfl
    have hlt : pa < endPa := by
      rw [UInt32.lt_iff_toNat_lt]
      omega
    have hpa' : (pa + sectsize).toNat = pa.toNat + 512 := by
      rw [UInt32.toNat_add, hsize]
      omega
    have hoff' : (offset + 1).toNat = offset.toNat + 1 := by
      have hone : (1 : UInt32).toNat = 1 := rfl
      rw [UInt32.toNat_add, hone]
      omega
    rw [readsegLoop, if_pos hlt, readsect_eq (by omega),
      ih (by omega) (by omega) (by omega) (by omega)]
    refine congrArg Except.ok (funext fun b => ?_)
    rw [hpa', hoff']
    by_cases hfirst : pa.toNat ≤ b ∧ b < pa.toNat + 512
    · have hin : pa.toNat ≤ b ∧ b < pa.toNat + 512 * (n + 1) := ⟨by omega, by omega⟩
      rw [if_neg (by omega), if_pos hfirst, if_pos hin]
    · by_cases hrest : pa.toNat + 512 ≤ b ∧ b < pa.toNat + 512 + 512 * n
      · have hin : pa.toNat ≤ b ∧ b < pa.toNat + 512 * (n + 1) := ⟨by omega, by omega⟩
        rw [if_pos hrest, if_pos hin]
        exact congrArg disk (by omega)
      · have hout : ¬ (pa.toNat ≤ b ∧ b < pa.toNat + 512 * (n + 1)) := by
          rintro ⟨hlo, hhi⟩
          exact hrest ⟨by omega, by omega⟩
        rw [if_neg hrest, if_neg hfirst, if_neg hout]

theorem roundDown_sect (pa : UInt32) :
    (pa &&& ~~~(sectsize - 1)).toNat = pa.toNat / 512 * 512 := by
  have hmask : (~~~(sectsize - 1)).toNat = 2 ^ 32 - 2 ^ 9 := rfl
  rw [UInt32.toNat_and, hmask]
  exact and_high_mask pa.toNat 9 (toNat_lt pa) (by norm_num)

/-- The number of sectors that `readseg` reads. -/
def sectorsRead (pa count : UInt32) : Nat :=
  ((pa + count).toNat + 511 - pa.toNat / 512 * 512) / 512

theorem sectorsRead_le (pa count : UInt32) : sectorsRead pa count ≤ count.toNat / 512 + 2 := by
  unfold sectorsRead
  have hend : (pa + count).toNat ≤ pa.toNat + count.toNat := by
    rw [UInt32.toNat_add]
    exact Nat.mod_le _ _
  omega

theorem readseg_run (hend : (pa + count).toNat ≤ 4294966784) (hfuel : sectorsRead pa count < fuel) :
    readseg fuel disk pa count offset ram = .ok fun b =>
      if pa.toNat / 512 * 512 ≤ b ∧ b < pa.toNat / 512 * 512 + 512 * sectorsRead pa count then
        disk (512 + offset.toNat / 512 * 512 + (b - pa.toNat / 512 * 512))
      else ram b := by
  have hoffset := toNat_lt offset
  have hstart := roundDown_sect pa
  have hsector : (offset / sectsize + 1).toNat = offset.toNat / 512 + 1 := by
    have hsize : sectsize.toNat = 512 := rfl
    have hone : (1 : UInt32).toNat = 1 := rfl
    rw [UInt32.toNat_add, UInt32.toNat_div, hsize, hone]
    omega
  have hcount : sectorsRead pa count =
      ((pa + count).toNat + 511 - (pa &&& ~~~(sectsize - 1)).toNat) / 512 := by
    rw [hstart]
    rfl
  have hfew : sectorsRead pa count ≤ 8388608 := by
    unfold sectorsRead
    omega
  rw [readseg, readsegLoop_run (by omega) hend hcount (by omega) hfuel, hstart, hsector]
  refine congrArg Except.ok (funext fun b => ?_)
  have hdisk : 512 * (offset.toNat / 512 + 1) = 512 + offset.toNat / 512 * 512 := by omega
  rw [hdisk]

/-- From every sector below an end in the last sector there is one more to read: the one behind
the last is the first. -/
theorem readsegLoop_spins (hpa : pa.toNat % 512 = 0) (hend : 4294966784 < endPa.toNat)
    (fuel : Nat) : readsegLoop disk endPa fuel pa offset ram = .error .fuel := by
  induction fuel generalizing pa offset ram with
  | zero => rfl
  | succ fuel ih =>
    have hbound := toNat_lt pa
    have hlt : pa < endPa := by
      rw [UInt32.lt_iff_toNat_lt]
      omega
    have hnext : (pa + sectsize).toNat % 512 = 0 := by
      have hsize : sectsize.toNat = 512 := rfl
      rw [UInt32.toNat_add, hsize]
      omega
    rw [readsegLoop, if_pos hlt]
    exact ih hnext

/-- `readseg` loads the sectors that cover its range, and nothing else. -/
theorem readseg_covers (disk : Disk) (ram : Ram) (pa count offset : UInt32)
    (hcount : 0 < count) (hcong : pa.toNat % 512 = offset.toNat % 512)
    (hbelow : pa.toNat + count.toNat ≤ 2 ^ 32 - 512) :
    ∃ ram', (∀ fuel, count.toNat / 512 + 2 < fuel →
        readseg fuel disk pa count offset ram = .ok ram') ∧
      (∀ a, pa.toNat / 512 * 512 ≤ a → a < (pa.toNat + count.toNat + 511) / 512 * 512 →
        ram' a = disk (512 + offset.toNat / 512 * 512 + (a - pa.toNat / 512 * 512))) ∧
      (∀ k < count.toNat, ram' (pa.toNat + k) = disk (512 + offset.toNat + k)) ∧
      ∀ a, a < pa.toNat / 512 * 512 ∨ (pa.toNat + count.toNat + 511) / 512 * 512 ≤ a →
        ram' a = ram a := by
  have hpos : 0 < count.toNat := UInt32.lt_iff_toNat_lt.mp hcount
  have hend : (pa + count).toNat = pa.toNat + count.toNat := by
    rw [UInt32.toNat_add]
    omega
  have hrange : pa.toNat / 512 * 512 + 512 * sectorsRead pa count =
      (pa.toNat + count.toNat + 511) / 512 * 512 := by
    unfold sectorsRead
    rw [hend]
    omega
  refine ⟨_, fun fuel hfuel => readseg_run (by omega) ((sectorsRead_le pa count).trans_lt hfuel),
    ?_, ?_, ?_⟩
  · intro a hlo hhi
    rw [hrange, if_pos ⟨hlo, hhi⟩]
  · intro k hk
    rw [hrange, if_pos ⟨by omega, by omega⟩]
    exact congrArg disk (by omega)
  · intro a hout
    rw [hrange, if_neg]
    rintro ⟨hlo, hhi⟩
    omega

/-- 600 bytes from the middle of a sector on. -/
theorem readseg_covers_two_sectors :
    ∃ ram' : Ram, (∀ fuel, 600 / 512 + 2 < fuel →
        readseg fuel (fun b => b.toUInt8) 0x100010 600 0x1010 (fun _ => 0) = .ok ram') ∧
      ∀ k < 600, ram' (0x100010 + k) = (512 + 0x1010 + k).toUInt8 := by
  obtain ⟨ram', hrun, -, hbytes, -⟩ :=
    readseg_covers (fun b => b.toUInt8) (fun _ => 0) 0x100010 600 0x1010
      (by decide) (by decide) (by decide)
  exact ⟨ram', hrun, hbytes⟩

/-- The loop of `readseg` ends, after at most `count / SECTSIZE + 2` reads, exactly when the end
address is not within the last sector of the address space; there it never ends. -/
theorem readseg_ends_iff (disk : Disk) (ram : Ram) (pa count offset : UInt32) :
    ((∃ ram', readseg (count.toNat / 512 + 2 + 1) disk pa count offset ram = .ok ram') ↔
      (pa + count).toNat ≤ 2 ^ 32 - 512) ∧
    ((∃ fuel ram', readseg fuel disk pa count offset ram = .ok ram') ↔
      (pa + count).toNat ≤ 2 ^ 32 - 512) := by
  have hends (hend : (pa + count).toNat ≤ 2 ^ 32 - 512) :
      ∃ ram', readseg (count.toNat / 512 + 2 + 1) disk pa count offset ram = .ok ram' :=
    ⟨_, readseg_run (by omega) (Nat.lt_succ_of_le (sectorsRead_le pa count))⟩
  have hspins {fuel : Nat} {ram' : Ram} (hrun : readseg fuel disk pa count offset ram = .ok ram') :
      (pa + count).toNat ≤ 2 ^ 32 - 512 := by
    by_contra hlast
    have haligned : (pa &&& ~~~(sectsize - 1)).toNat % 512 = 0 := by
      rw [roundDown_sect]
      omega
    unfold readseg at hrun
    rw [readsegLoop_spins haligned (by omega)] at hrun
    cases hrun
  constructor
  · constructor
    · rintro ⟨ram', hrun⟩
      exact hspins hrun
    · exact hends
  · constructor
    · rintro ⟨fuel, ram', hrun⟩
      exact hspins hrun
    · intro hend
      obtain ⟨ram', hrun⟩ := hends hend
      exact ⟨_, ram', hrun⟩

/-- One byte in the last sector of the address space. -/
theorem readseg_never_ends :
    ¬ ∃ fuel ram', readseg fuel (fun _ => 0) 0xFFFFFE00 1 0 (fun _ => 0) = .ok ram' := by
  rintro ⟨fuel, ram', hrun⟩
  have hspins : readseg fuel (fun _ => 0) 0xFFFFFE00 1 0 (fun _ => 0) = .error .fuel :=
    readsegLoop_spins (by decide) (by decide) fuel
  rw [hspins] at hrun
  cases hrun

end Jos
