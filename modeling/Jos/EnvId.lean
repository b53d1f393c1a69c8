import Jos.Env

/-!
The ids that one slot of `envs` gives out. The generation counts in steps of
`1 << ENVGENSHIFT` above the slot number and starts again at one when it would
reach the sign bit, so a slot has `2^19 - 1` ids and uses them in turn.
-/

namespace Jos

/-- The id of generation `k` of the slot `e`. -/
def idOf (k : Nat) (e : Fin nenv) : Int32 := Int32.ofNat (k * 4096 + e.val)

/-- The number of ids of a slot. -/
def idPeriod : Nat := 524287

variable {k l : Nat} {e e' : Fin nenv}

theorem idOf_bits (e : Fin nenv) (hk : k ≤ 524288) :
    (idOf k e).toBitVec.toNat = k * 4096 + e.val := by
  have he : e.val < 1024 := e.isLt
  rw [idOf, Int32.toBitVec_ofNat', BitVec.toNat_ofNat]
  omega

theorem idOf_toInt (e : Fin nenv) (hk : k < 524288) :
    (idOf k e).toInt = k * 4096 + e.val := by
  have he : e.val < 1024 := e.isLt
  rw [idOf, Int32.toInt_ofNat_of_lt (by omega)]
  push_cast
  rfl

theorem idOf_pos (e : Fin nenv) (hpos : 1 ≤ k) (hk : k < 524288) : 0 < idOf k e := by
  rw [Int32.lt_iff_toInt_lt, idOf_toInt e hk]
  have hzero : (0 : Int32).toInt = 0 := rfl
  rw [hzero]
  omega

theorem idOf_inj (hk : k < 524288) (hl : l < 524288) (h : idOf k e = idOf l e') :
    k = l ∧ e = e' := by
  have he : e.val < 1024 := e.isLt
  have he' : e'.val < 1024 := e'.isLt
  have hbits : (idOf k e).toBitVec.toNat = (idOf l e').toBitVec.toNat := by
    rw [h]
  rw [idOf_bits e (by omega), idOf_bits e' (by omega)] at hbits
  exact ⟨by omega, Fin.ext (by omega)⟩

/-- `ENVX` recovers the slot. -/
theorem envx_idOf (e : Fin nenv) (hk : k < 524288) : envx (idOf k e) = e := by
  have he : e.val < 1024 := e.isLt
  apply Fin.ext
  have hbits : (idOf k e &&& (1024 - 1)).toUInt32.toNat = e.val := by
    have hmask : (1024 - 1 : Int32).toBitVec.toNat = 2 ^ 10 - 1 := rfl
    change (idOf k e &&& (1024 - 1)).toBitVec.toNat = e.val
    rw [Int32.toBitVec_and, BitVec.toNat_and, hmask, Nat.and_two_pow_sub_one_eq_mod,
      idOf_bits e (by omega)]
    omega
  change (idOf k e &&& (1024 - 1)).toUInt32.toNat % nenv = e.val
  rw [hbits, Nat.mod_eq_of_lt he]

/-- The generation before the wrap-around test. -/
theorem generation_bits (x : Int32) :
    ((x + (1 : Int32) <<< 12) &&& ~~~(1024 - 1)).toBitVec.toNat =
      (x.toBitVec.toNat + 4096) % 4294967296 / 1024 * 1024 := by
  have hshift : ((1 : Int32) <<< 12).toBitVec.toNat = 4096 := by decide
  have hmask : (~~~(1024 - 1) : Int32).toBitVec.toNat = 2 ^ 32 - 2 ^ 10 := by decide
  rw [Int32.toBitVec_and, BitVec.toNat_and, hmask, Int32.toBitVec_add, BitVec.toNat_add, hshift]
  exact and_high_mask _ 10 (Nat.mod_lt _ (by norm_num)) (by norm_num)

theorem or_slot {x : Int32} (hx : x.toBitVec.toNat = k * 4096) (hk : k < 524288) :
    x ||| Int32.ofNat e.val = idOf k e := by
  have he : e.val < 1024 := e.isLt
  apply Int32.toBitVec_inj.mp
  apply BitVec.eq_of_toNat_eq
  rw [Int32.toBitVec_or, BitVec.toNat_or, hx, idOf_bits e (by omega), Int32.toBitVec_ofNat',
    BitVec.toNat_ofNat]
  have hmod : e.val % 2 ^ 32 = e.val := by omega
  rw [hmod]
  exact or_eq_add (k := 12) (by omega) (by omega)

theorem toInt_of_bits {x : Int32} {n : Nat} (hx : x.toBitVec.toNat = n) :
    x.toInt = if 2 * n < 4294967296 then (n : Int) else (n : Int) - 4294967296 := by
  change x.toBitVec.toInt = _
  rw [BitVec.toInt_eq_toNat_cond, hx]
  rfl

theorem one_shift_bits : ((1 : Int32) <<< 12).toBitVec.toNat = 1 * 4096 := by decide

/-- The next id of a slot whose generation has not reached the sign bit. -/
theorem nextEnvId_of_bits {x : Int32} (hk : k + 1 < 524288)
    (hx : x.toBitVec.toNat / 1024 = k * 4) : nextEnvId e x = idOf (k + 1) e := by
  have hgen := generation_bits x
  have hbits : ((x + (1 : Int32) <<< 12) &&& ~~~(1024 - 1)).toBitVec.toNat = (k + 1) * 4096 := by
    rw [hgen]
    omega
  have hpos : ¬ ((x + (1 : Int32) <<< 12) &&& ~~~(1024 - 1)) ≤ 0 := by
    rw [Int32.le_iff_toInt_le, toInt_of_bits hbits, if_pos (by omega)]
    have hzero : (0 : Int32).toInt = 0 := rfl
    rw [hzero]
    omega
  simp only [nextEnvId]
  rw [if_neg hpos]
  exact or_slot hbits hk

theorem nextEnvId_zero (e : Fin nenv) : nextEnvId e 0 = idOf 1 e :=
  nextEnvId_of_bits (k := 0) (by norm_num) (by decide)

/-- The last generation is followed by the first: adding the step would reach
the sign bit. -/
theorem nextEnvId_wrap (e : Fin nenv) : nextEnvId e (idOf 524287 e) = idOf 1 e := by
  have he : e.val < 1024 := e.isLt
  have hgen := generation_bits (idOf 524287 e)
  rw [idOf_bits e (by norm_num)] at hgen
  have hbits : ((idOf 524287 e + (1 : Int32) <<< 12) &&& ~~~(1024 - 1)).toBitVec.toNat =
      2147483648 := by
    rw [hgen]
    omega
  have hneg : ((idOf 524287 e + (1 : Int32) <<< 12) &&& ~~~(1024 - 1)) ≤ 0 := by
    rw [Int32.le_iff_toInt_le, toInt_of_bits hbits, if_neg (by norm_num)]
    decide
  simp only [nextEnvId]
  rw [if_pos hneg]
  exact or_slot one_shift_bits (by norm_num)

theorem nextEnvId_idOf (e : Fin nenv) (hpos : 1 ≤ k) (hk : k ≤ idPeriod) :
    nextEnvId e (idOf k e) = idOf (k % idPeriod + 1) e := by
  have he : e.val < 1024 := e.isLt
  simp only [idPeriod] at *
  rcases Nat.lt_or_ge k 524287 with hlt | hge
  · have hnext : nextEnvId e (idOf k e) = idOf (k + 1) e := by
      apply nextEnvId_of_bits (by omega)
      rw [idOf_bits e (by omega)]
      omega
    rw [hnext, Nat.mod_eq_of_lt hlt]
  · obtain rfl : k = 524287 := by omega
    rw [nextEnvId_wrap, Nat.mod_self]

end Jos
