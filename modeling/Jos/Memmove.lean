import Jos.Lib.BlockCopy
import Jos.Mmu

/-!
The two versions of `memmove` in `lib/string.c`: the one that uses the string instructions of the
processor, and the portable one. Addresses wrap at 2^32.
-/

namespace Jos

/-- The registers that `rep movs` uses, the direction flag, and memory. -/
structure Cpu where
  edi : UInt32
  esi : UInt32
  ecx : UInt32
  df : Bool
  mem : UInt32 → UInt8

namespace Cpu

def cld (c : Cpu) : Cpu := { c with df := false }
def std (c : Cpu) : Cpu := { c with df := true }

/-- `"D" (d), "S" (s), "c" (n)` -/
def operands (d s n : UInt32) (c : Cpu) : Cpu := { c with edi := d, esi := s, ecx := n }

/-- `movsb` for the width 1 and `movsl` for 4: all bytes are read before the first is written. -/
def movs (width : UInt32) (c : Cpu) : Cpu :=
  { c with
    edi := if c.df then c.edi - width else c.edi + width
    esi := if c.df then c.esi - width else c.esi + width
    mem := fun a => if a - c.edi < width then c.mem (c.esi + (a - c.edi)) else c.mem a }

/-- `rep movs`: until `ecx` is 0. -/
def repMovs (width : UInt32) (c : Cpu) : Cpu :=
  if c.ecx = 0 then c
  else repMovs width { c.movs width with ecx := c.ecx - 1 }
termination_by c.ecx.toNat
decreasing_by
  next hne =>
    have hpos : c.ecx.toNat ≠ 0 := fun hzero => hne (UInt32.toNat_inj.mp hzero)
    have hone : (1 : UInt32).toNat = 1 := rfl
    change (c.ecx - 1).toNat < c.ecx.toNat
    rw [UInt32.toNat_sub, hone]
    have hlt := toNat_lt c.ecx
    omega

/-- `memmove` with `ASM`: the state that it leaves, and its result. -/
def memmove (dst src n : UInt32) (c : Cpu) : Cpu × UInt32 :=
  if src < dst ∧ dst < src + n then
    let s := src + n
    let d := dst + n
    if s.toInt32 % 4 = 0 ∧ d.toInt32 % 4 = 0 ∧ n % 4 = 0 then
      (((c.operands (d - 4) (s - 4) (n / 4)).std.repMovs 4).cld, dst)
    else
      (((c.operands (d - 1) (s - 1) n).std.repMovs 1).cld, dst)
  else
    if src.toInt32 % 4 = 0 ∧ dst.toInt32 % 4 = 0 ∧ n % 4 = 0 then
      ((c.operands dst src (n / 4)).cld.repMovs 4, dst)
    else
      ((c.operands dst src n).cld.repMovs 1, dst)

def memcpy (dst src n : UInt32) (c : Cpu) : Cpu × UInt32 := memmove dst src n c

end Cpu

namespace Portable

/-- `while (n-- > 0) *--d = *--s;` -/
def copyDown : Nat → UInt32 → UInt32 → (UInt32 → UInt8) → UInt32 → UInt8
  | 0, _, _, mem => mem
  | n + 1, d, s, mem => copyDown n (d - 1) (s - 1) (Function.update mem (d - 1) (mem (s - 1)))

/-- `while (n-- > 0) *d++ = *s++;` -/
def copyUp : Nat → UInt32 → UInt32 → (UInt32 → UInt8) → UInt32 → UInt8
  | 0, _, _, mem => mem
  | n + 1, d, s, mem => copyUp n (d + 1) (s + 1) (Function.update mem d (mem s))

def memmove (dst src n : UInt32) (mem : UInt32 → UInt8) : (UInt32 → UInt8) × UInt32 :=
  if src < dst ∧ dst < src + n then
    (copyDown n.toNat (dst + n) (src + n) mem, dst)
  else
    (copyUp n.toNat dst src mem, dst)

def memcpy (dst src n : UInt32) (mem : UInt32 → UInt8) : (UInt32 → UInt8) × UInt32 :=
  memmove dst src n mem

end Portable

open BlockCopy

/-- The `k`th byte behind an address. -/
def byteAfter (p : UInt32) (k : Nat) : UInt32 := p + UInt32.ofNat k

section

variable {dst src n width : UInt32} {t len : Nat} {m₀ mem : UInt32 → UInt8} {c : Cpu}

theorem byteAfter_toNat {p : UInt32} {k : Nat} (h : p.toNat + k < 2 ^ 32) :
    (byteAfter p k).toNat = p.toNat + k := by
  unfold byteAfter
  rw [UInt32.toNat_add, UInt32.toNat_ofNat']
  omega

theorem byteAfter_add (p : UInt32) (k i : Nat) :
    byteAfter p (k + i) = byteAfter p k + UInt32.ofNat i := by
  unfold byteAfter
  rw [UInt32.ofNat_add, UInt32.add_assoc]

theorem byteAfter_zero (p : UInt32) : byteAfter p 0 = p := UInt32.add_zero p

theorem byteAfter_inj {p : UInt32} {i j : Nat} (hi : i < 2 ^ 32) (hj : j < 2 ^ 32)
    (h : byteAfter p i = byteAfter p j) : i = j := by
  have hsame := congrArg UInt32.toNat (UInt32.add_right_inj p |>.mp h)
  rw [UInt32.toNat_ofNat', UInt32.toNat_ofNat'] at hsame
  omega

theorem byteAfter_width (p width : UInt32) (k : Nat) :
    byteAfter p (k + width.toNat) = byteAfter p k + width := by
  rw [byteAfter_add, UInt32.ofNat_toNat]

theorem upSafe (hdst : dst.toNat + len ≤ 2 ^ 32) (hsrc : src.toNat + len ≤ 2 ^ 32)
    (h : dst.toNat ≤ src.toNat ∨ src.toNat + len ≤ dst.toNat) :
    UpSafe (byteAfter dst) (byteAfter src) len := by
  intro j i hj hi
  have hread := byteAfter_toNat (p := src) (k := i) (by omega)
  have hnext := byteAfter_toNat (p := dst) (k := i) (by omega)
  have hwritten := byteAfter_toNat (p := dst) (k := j) (by omega)
  constructor
  · intro heq
    rw [heq] at hread
    omega
  · intro heq
    rw [heq] at hnext
    omega

theorem downSafe (hdst : dst.toNat + len ≤ 2 ^ 32) (h : src.toNat ≤ dst.toNat) :
    DownSafe (byteAfter dst) (byteAfter src) len := by
  intro j i hi hj
  have hread := byteAfter_toNat (p := src) (k := i) (by omega)
  have hnext := byteAfter_toNat (p := dst) (k := i) (by omega)
  have hwritten := byteAfter_toNat (p := dst) (k := j) (by omega)
  constructor
  · intro heq
    rw [heq] at hread
    omega
  · intro heq
    rw [heq] at hnext
    omega

theorem movs_moves (width : UInt32) (hedi : c.edi = byteAfter dst t)
    (hesi : c.esi = byteAfter src t) :
    Moves (byteAfter dst) (byteAfter src) c.mem (c.movs width).mem t width.toNat where
  moved i hi := by
    have hplace : byteAfter dst (t + i) - c.edi = UInt32.ofNat i := by
      rw [byteAfter_add, hedi, UInt32.add_comm, UInt32.add_sub_cancel]
    have hlt : UInt32.ofNat i < width := by
      have hwidth := toNat_lt width
      rw [UInt32.lt_iff_toNat_lt, UInt32.toNat_ofNat']
      omega
    change (if byteAfter dst (t + i) - c.edi < width then _ else _) = _
    rw [hplace, if_pos hlt, hesi, byteAfter_add]
  others a ha := by
    change (if a - c.edi < width then _ else _) = _
    rw [if_neg]
    intro hlt
    refine ha (a - c.edi).toNat (UInt32.lt_iff_toNat_lt.mp hlt) ?_
    rw [byteAfter_add, UInt32.ofNat_toNat, ← hedi, UInt32.add_comm, UInt32.sub_add_cancel]

theorem ecx_pred {m : Nat} {x : UInt32} (h : x.toNat = m + 1) : (x - 1).toNat = m := by
  have hone : (1 : UInt32).toNat = 1 := rfl
  have hlt := toNat_lt x
  rw [UInt32.toNat_sub, hone]
  omega

theorem ecx_ne_zero {m : Nat} {x : UInt32} (h : x.toNat = m + 1) : x ≠ 0 := by
  rintro rfl
  cases h

/-- Upwards, `t` bytes have been copied. -/
theorem repMovs_up (hsafe : UpSafe (byteAfter dst) (byteAfter src) len) (hdf : c.df = false)
    (hcopied : Copied (byteAfter dst) (byteAfter src) m₀ c.mem 0 t)
    (hedi : c.edi = byteAfter dst t) (hesi : c.esi = byteAfter src t)
    (hcount : t + width.toNat * c.ecx.toNat = len) :
    Copied (byteAfter dst) (byteAfter src) m₀ (c.repMovs width).mem 0 len ∧
      (c.repMovs width).df = false := by
  induction hm : c.ecx.toNat generalizing c t with
  | zero =>
    have hend : t = len := by
      rw [hm] at hcount
      exact hcount
    rw [Cpu.repMovs, if_pos (UInt32.toNat_inj.mp hm), ← hend]
    exact ⟨hcopied, hdf⟩
  | succ m ih =>
    rw [hm, Nat.mul_succ] at hcount
    rw [Cpu.repMovs, if_neg (ecx_ne_zero hm)]
    have hnext := hcopied.up (movs_moves width hedi hesi) (Nat.zero_le t) hsafe (by omega)
    refine ih hdf hnext ?_ ?_ ?_ (ecx_pred hm)
    · change (if c.df then _ else _) = _
      rw [hdf, byteAfter_width, hedi]
      rfl
    · change (if c.df then _ else _) = _
      rw [hdf, byteAfter_width, hesi]
      rfl
    · change t + width.toNat + width.toNat * (c.ecx - 1).toNat = len
      rw [ecx_pred hm]
      omega

/-- Downwards, the bytes from the next one of the count on have been copied. -/
theorem repMovs_down (hsafe : DownSafe (byteAfter dst) (byteAfter src) len) (hdf : c.df = true)
    (hcopied : Copied (byteAfter dst) (byteAfter src) m₀ c.mem (width.toNat * c.ecx.toNat) len)
    (hle : width.toNat * c.ecx.toNat ≤ len)
    (hedi : c.edi + width = byteAfter dst (width.toNat * c.ecx.toNat))
    (hesi : c.esi + width = byteAfter src (width.toNat * c.ecx.toNat)) :
    Copied (byteAfter dst) (byteAfter src) m₀ (c.repMovs width).mem 0 len := by
  induction hm : c.ecx.toNat generalizing c with
  | zero =>
    rw [hm] at hcopied
    rw [Cpu.repMovs, if_pos (UInt32.toNat_inj.mp hm)]
    exact hcopied
  | succ m ih =>
    rw [hm, Nat.mul_succ] at hcopied hedi hesi hle
    rw [byteAfter_width] at hedi hesi
    have hedi' := (UInt32.add_left_inj width).mp hedi
    have hesi' := (UInt32.add_left_inj width).mp hesi
    have hnext := hcopied.down (movs_moves width hedi' hesi') hle hsafe (le_refl len)
    rw [Cpu.repMovs, if_neg (ecx_ne_zero hm)]
    refine ih hdf ?_ ?_ ?_ ?_ (ecx_pred hm)
    · change Copied _ _ _ _ (width.toNat * (c.ecx - 1).toNat) _
      rw [ecx_pred hm]
      exact hnext
    · change width.toNat * (c.ecx - 1).toNat ≤ len
      rw [ecx_pred hm]
      omega
    · change (if c.df then _ else _) + width = byteAfter dst (width.toNat * (c.ecx - 1).toNat)
      rw [hdf, ecx_pred hm, ← hedi']
      exact UInt32.sub_add_cancel _ _
    · change (if c.df then _ else _) + width = byteAfter src (width.toNat * (c.ecx - 1).toNat)
      rw [hdf, ecx_pred hm, ← hesi']
      exact UInt32.sub_add_cancel _ _

theorem update_moves (mem : UInt32 → UInt8) (dst src : UInt32) (t : Nat) :
    Moves (byteAfter dst) (byteAfter src) mem
      (Function.update mem (byteAfter dst t) (mem (byteAfter src t))) t 1 where
  moved i hi := by
    obtain rfl : i = 0 := by omega
    exact Function.update_self _ _ _
  others a ha := Function.update_of_ne (ha 0 (by omega)) _ _

theorem byteAfter_succ (p : UInt32) (k : Nat) : byteAfter p (k + 1) = byteAfter p k + 1 :=
  byteAfter_add p k 1

theorem copyUp_copied (hsafe : UpSafe (byteAfter dst) (byteAfter src) len) {m : Nat}
    (hcopied : Copied (byteAfter dst) (byteAfter src) m₀ mem 0 t) (hcount : t + m = len) :
    Copied (byteAfter dst) (byteAfter src) m₀
      (Portable.copyUp m (byteAfter dst t) (byteAfter src t) mem) 0 len := by
  induction m generalizing t mem with
  | zero =>
    obtain rfl : t = len := hcount
    exact hcopied
  | succ m ih =>
    have hnext := hcopied.up (update_moves mem dst src t) (Nat.zero_le t) hsafe (by omega)
    have hrest := ih hnext (by omega)
    rw [byteAfter_succ, byteAfter_succ] at hrest
    exact hrest

theorem copyDown_copied (hsafe : DownSafe (byteAfter dst) (byteAfter src) len) {m : Nat}
    (hcopied : Copied (byteAfter dst) (byteAfter src) m₀ mem m len) (hle : m ≤ len) :
    Copied (byteAfter dst) (byteAfter src) m₀
      (Portable.copyDown m (byteAfter dst m) (byteAfter src m) mem) 0 len := by
  induction m generalizing mem with
  | zero => exact hcopied
  | succ m ih =>
    have hnext := hcopied.down (update_moves mem dst src m) hle hsafe (le_refl len)
    have hrest := ih hnext (by omega)
    rw [Portable.copyDown, byteAfter_succ, byteAfter_succ, UInt32.add_sub_cancel,
      UInt32.add_sub_cancel]
    exact hrest

/-- The test for an overlap is right although `s + n` wraps: below `d` it cannot. -/
theorem overlaps_iff (hdst : dst.toNat + n.toNat ≤ 2 ^ 32) :
    src < dst ∧ dst < src + n ↔
      src.toNat < dst.toNat ∧ dst.toNat < src.toNat + n.toNat := by
  rw [UInt32.lt_iff_toNat_lt, UInt32.lt_iff_toNat_lt, UInt32.toNat_add]
  constructor
  · rintro ⟨hlt, hover⟩
    rw [Nat.mod_eq_of_lt (by omega)] at hover
    exact ⟨hlt, hover⟩
  · rintro ⟨hlt, hover⟩
    rw [Nat.mod_eq_of_lt (by omega)]
    exact ⟨hlt, hover⟩

theorem words_eq (h : n % 4 = 0) : (4 : UInt32).toNat * (n / 4).toNat = n.toNat := by
  have hfour : (4 : UInt32).toNat = 4 := rfl
  have hmod := congrArg UInt32.toNat h
  rw [UInt32.toNat_mod, hfour] at hmod
  change n.toNat % 4 = 0 at hmod
  rw [UInt32.toNat_div, hfour]
  omega

theorem bytes_eq (n : UInt32) : (1 : UInt32).toNat * n.toNat = n.toNat := Nat.one_mul _

theorem byteAfter_end (p n : UInt32) : byteAfter p n.toNat = p + n := by
  unfold byteAfter
  rw [UInt32.ofNat_toNat]

/-- Downwards by words or by bytes, from the ends of the blocks. -/
theorem repMovs_from_end (hsafe : DownSafe (byteAfter dst) (byteAfter src) n.toNat)
    {count : UInt32} (hcount : width.toNat * count.toNat = n.toNat) (c : Cpu) :
    Copied (byteAfter dst) (byteAfter src) c.mem
      ((c.operands (dst + n - width) (src + n - width) count).std.repMovs width).mem 0
      n.toNat := by
  have hcounted : width.toNat *
      (c.operands (dst + n - width) (src + n - width) count).std.ecx.toNat = n.toNat := hcount
  refine repMovs_down hsafe rfl ?_ hcounted.le ?_ ?_
  · rw [hcounted]
    exact Copied.start _ _ c.mem _
  · rw [hcounted, byteAfter_end]
    exact UInt32.sub_add_cancel _ _
  · rw [hcounted, byteAfter_end]
    exact UInt32.sub_add_cancel _ _

/-- Upwards, from their beginnings. -/
theorem repMovs_from_start (hsafe : UpSafe (byteAfter dst) (byteAfter src) n.toNat)
    {count : UInt32} (hcount : width.toNat * count.toNat = n.toNat) (c : Cpu) :
    Copied (byteAfter dst) (byteAfter src) c.mem
        ((c.operands dst src count).cld.repMovs width).mem 0 n.toNat ∧
      ((c.operands dst src count).cld.repMovs width).df = false := by
  have hcounted : 0 + width.toNat * (c.operands dst src count).cld.ecx.toNat = n.toNat :=
    (Nat.zero_add _).trans hcount
  exact repMovs_up hsafe rfl (Copied.start _ _ c.mem 0) (byteAfter_zero dst).symm
    (byteAfter_zero src).symm hcounted

theorem Cpu.memmove_copied (hdst : dst.toNat + n.toNat ≤ 2 ^ 32)
    (hsrc : src.toNat + n.toNat ≤ 2 ^ 32) (c : Cpu) :
    Copied (byteAfter dst) (byteAfter src) c.mem (c.memmove dst src n).1.mem 0 n.toNat ∧
      (c.memmove dst src n).1.df = false ∧ (c.memmove dst src n).2 = dst := by
  unfold Cpu.memmove
  split
  · next hover =>
    have hbelow := ((overlaps_iff hdst).mp hover).1
    have hsafe : DownSafe (byteAfter dst) (byteAfter src) n.toNat := downSafe hdst hbelow.le
    dsimp only
    split
    · next hwords => exact ⟨repMovs_from_end hsafe (words_eq hwords.2.2) c, rfl, rfl⟩
    · exact ⟨repMovs_from_end hsafe (bytes_eq n) c, rfl, rfl⟩
  · next hapart =>
    rw [overlaps_iff hdst] at hapart
    have hsafe := upSafe hdst hsrc (by omega)
    split
    · next hwords =>
      obtain ⟨hcopied, hdf⟩ := repMovs_from_start hsafe (words_eq hwords.2.2) c
      exact ⟨hcopied, hdf, rfl⟩
    · obtain ⟨hcopied, hdf⟩ := repMovs_from_start hsafe (bytes_eq n) c
      exact ⟨hcopied, hdf, rfl⟩

theorem Portable.memmove_copied (hdst : dst.toNat + n.toNat ≤ 2 ^ 32)
    (hsrc : src.toNat + n.toNat ≤ 2 ^ 32) (mem : UInt32 → UInt8) :
    Copied (byteAfter dst) (byteAfter src) mem (Portable.memmove dst src n mem).1 0 n.toNat ∧
      (Portable.memmove dst src n mem).2 = dst := by
  unfold Portable.memmove
  split
  · next hover =>
    have hbelow := ((overlaps_iff hdst).mp hover).1
    have hsafe : DownSafe (byteAfter dst) (byteAfter src) n.toNat := downSafe hdst hbelow.le
    refine ⟨?_, rfl⟩
    rw [← byteAfter_end, ← byteAfter_end]
    exact copyDown_copied hsafe (Copied.start _ _ mem _) (le_refl _)
  · next hapart =>
    rw [overlaps_iff hdst] at hapart
    have hsafe := upSafe hdst hsrc (by omega)
    have hcopied := copyUp_copied hsafe (Copied.start _ _ mem 0) (Nat.zero_add _)
    rw [byteAfter_zero, byteAfter_zero] at hcopied
    exact ⟨hcopied, rfl⟩

end

/-- Both versions of `memmove`, and `memcpy` with them, copy the bytes as they stood at the call,
wherever the blocks overlap, change no other byte, and leave the direction flag clear. -/
theorem memmove_copies (dst src n : UInt32) (c : Cpu) (hdst : dst.toNat + n.toNat ≤ 2 ^ 32)
    (hsrc : src.toNat + n.toNat ≤ 2 ^ 32) :
    ∃ mem : UInt32 → UInt8, ∃ c' : Cpu,
      c.memmove dst src n = (c', dst) ∧ c.memcpy dst src n = (c', dst) ∧
      c'.mem = mem ∧ c'.df = false ∧
      Portable.memmove dst src n c.mem = (mem, dst) ∧
      Portable.memcpy dst src n c.mem = (mem, dst) ∧
      (∀ k < n.toNat, mem (dst + UInt32.ofNat k) = c.mem (src + UInt32.ofNat k)) ∧
      ∀ a : UInt32, a.toNat < dst.toNat ∨ dst.toNat + n.toNat ≤ a.toNat → mem a = c.mem a := by
  obtain ⟨hcopied, hdf, hresult⟩ := c.memmove_copied hdst hsrc
  obtain ⟨hportable, hresult'⟩ := Portable.memmove_copied hdst hsrc c.mem
  have hsame := hportable.unique hcopied
  refine ⟨_, _, Prod.ext rfl hresult, Prod.ext rfl hresult, rfl, hdf, Prod.ext hsame hresult',
    Prod.ext hsame hresult', ?_, ?_⟩
  · intro k hk
    exact hcopied.copied k (Nat.zero_le k) hk
  · intro a ha
    refine hcopied.others a ?_
    rintro k - hk rfl
    rw [byteAfter_toNat (by omega)] at ha
    omega

/-- Two words downwards, over blocks that overlap by one, up to the end of the address space. -/
theorem memmove_copies_top :
    ∃ c' : Cpu, (⟨0, 0, 0, true, UInt32.toUInt8⟩ : Cpu).memmove 0xFFFFFFF8 0xFFFFFFF4 8 =
        (c', 0xFFFFFFF8) ∧ c'.df = false ∧
      ∀ k < 8, c'.mem (0xFFFFFFF8 + UInt32.ofNat k) = (0xFFFFFFF4 + UInt32.ofNat k).toUInt8 := by
  obtain ⟨_, c', hrun, -, rfl, hdf, -, -, hcopied, -⟩ :=
    memmove_copies 0xFFFFFFF8 0xFFFFFFF4 8 ⟨0, 0, 0, true, UInt32.toUInt8⟩ (by decide) (by decide)
  exact ⟨c', hrun, hdf, hcopied⟩

end Jos
