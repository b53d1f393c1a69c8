import Jos.Lib.Prog

/-!
The constants and macros of `inc/mmu.h`, `inc/memlayout.h` and `inc/types.h`:
how a 32-bit address splits into directory index, table index and offset, how
an entry splits into frame address and flags, and where the regions of the
virtual memory map lie.
-/

namespace Jos

def pgsize : UInt32 := 4096
def ptsize : UInt32 := 4194304
def npdentries : Nat := 1024
def nptentries : Nat := 1024

def pgnum (la : UInt32) : UInt32 := la >>> 12
def pdx (la : UInt32) : UInt32 := (la >>> 22) &&& 0x3FF
def ptx (la : UInt32) : UInt32 := (la >>> 12) &&& 0x3FF
def pgoff (la : UInt32) : UInt32 := la &&& 0xFFF
def pgaddr (d t o : UInt32) : UInt32 := (d <<< 22) ||| (t <<< 12) ||| o

def pteP : UInt32 := 0x001
def pteW : UInt32 := 0x002
def pteU : UInt32 := 0x004

def pteAddr (pte : UInt32) : UInt32 := pte &&& ~~~0xFFF

def kernbase : UInt32 := 0xF0000000
def iophysmem : UInt32 := 0x0A0000
def extphysmem : UInt32 := 0x100000
def kstacktop : UInt32 := kernbase
def kstksize : UInt32 := 8 * pgsize
def mmiolim : UInt32 := kstacktop - ptsize
def mmiobase : UInt32 := mmiolim - ptsize
def ulim : UInt32 := mmiobase
def uvpt : UInt32 := ulim - ptsize
def upages : UInt32 := uvpt - ptsize
def uenvs : UInt32 := upages - ptsize
def utop : UInt32 := uenvs
def ustacktop : UInt32 := utop - 2 * pgsize

def roundDown (a n : UInt32) : UInt32 := a - a % n
def roundUp (a n : UInt32) : UInt32 := roundDown (a + n - 1) n

def eBadEnv : Int := 2
def eNoMem : Int := 4
def eNoFreeEnv : Int := 5

theorem toNat_lt (x : UInt32) : x.toNat < 4294967296 := x.toNat_lt

theorem and_high_mask (x k : Nat) (hx : x < 2 ^ 32) (hk : k ≤ 32) :
    x &&& (2 ^ 32 - 2 ^ k) = x / 2 ^ k * 2 ^ k := by
  apply Nat.eq_of_testBit_eq
  intro i
  have hmask : 2 ^ 32 - 2 ^ k = 2 ^ k * (2 ^ (32 - k) - 1) := by
    rw [Nat.mul_sub, ← pow_add]
    have hexp : k + (32 - k) = 32 := by omega
    rw [hexp, mul_one]
  rw [hmask, mul_comm (2 ^ k), Nat.testBit_and, Nat.testBit_mul_two_pow,
    Nat.testBit_mul_two_pow, Nat.testBit_div_two_pow, Nat.testBit_two_pow_sub_one]
  by_cases hi : k ≤ i
  · have hsum : i - k + k = i := by omega
    simp only [hi, decide_true, Bool.true_and, hsum]
    by_cases hlt : i - k < 32 - k
    · simp [hlt]
    · have hzero : x.testBit i = false := by
        apply Nat.testBit_lt_two_pow
        calc x < 2 ^ 32 := hx
          _ ≤ 2 ^ i := Nat.pow_le_pow_right (by norm_num) (by omega)
      simp [hzero]
  · simp [hi]

theorem or_eq_add {a b k : Nat} (ha : a % 2 ^ k = 0) (hb : b < 2 ^ k) :
    a ||| b = a + b := by
  obtain ⟨c, rfl⟩ := Nat.dvd_of_mod_eq_zero ha
  exact (Nat.two_pow_add_eq_or_of_lt hb c).symm

@[simp] theorem pgnum_toNat (la : UInt32) : (pgnum la).toNat = la.toNat / 4096 := by
  simp [pgnum, UInt32.toNat_shiftRight, Nat.shiftRight_eq_div_pow]

@[simp] theorem pdx_toNat (la : UInt32) : (pdx la).toNat = la.toNat / 4194304 := by
  have h := toNat_lt la
  have hmask : (0x3FF : UInt32).toNat = 2 ^ 10 - 1 := rfl
  rw [pdx, UInt32.toNat_and, hmask, Nat.and_two_pow_sub_one_eq_mod,
    UInt32.toNat_shiftRight, Nat.shiftRight_eq_div_pow]
  change la.toNat / 2 ^ 22 % 2 ^ 10 = _
  omega

@[simp] theorem ptx_toNat (la : UInt32) :
    (ptx la).toNat = la.toNat / 4096 % 1024 := by
  have hmask : (0x3FF : UInt32).toNat = 2 ^ 10 - 1 := rfl
  rw [ptx, UInt32.toNat_and, hmask, Nat.and_two_pow_sub_one_eq_mod,
    UInt32.toNat_shiftRight, Nat.shiftRight_eq_div_pow]
  rfl

@[simp] theorem pgoff_toNat (la : UInt32) : (pgoff la).toNat = la.toNat % 4096 := by
  have hmask : (0xFFF : UInt32).toNat = 2 ^ 12 - 1 := rfl
  rw [pgoff, UInt32.toNat_and, hmask, Nat.and_two_pow_sub_one_eq_mod]

@[simp] theorem pteAddr_toNat (pte : UInt32) :
    (pteAddr pte).toNat = pte.toNat / 4096 * 4096 := by
  have hmask : (~~~0xFFF : UInt32).toNat = 2 ^ 32 - 2 ^ 12 := rfl
  rw [pteAddr, UInt32.toNat_and, hmask]
  exact and_high_mask pte.toNat 12 (toNat_lt pte) (by norm_num)

theorem pdx_lt (la : UInt32) : (pdx la).toNat < 1024 := by
  have h := toNat_lt la
  rw [pdx_toNat]
  omega

theorem ptx_lt (la : UInt32) : (ptx la).toNat < 1024 := by
  rw [ptx_toNat]
  omega

theorem pgaddr_toNat (d t o : UInt32) (hd : d.toNat < 1024) (ht : t.toNat < 1024)
    (ho : o.toNat < 4096) :
    (pgaddr d t o).toNat = d.toNat * 4194304 + t.toNat * 4096 + o.toNat := by
  have hshift22 : (d <<< 22).toNat = d.toNat * 4194304 := by
    rw [UInt32.toNat_shiftLeft, Nat.shiftLeft_eq]
    change d.toNat * 2 ^ 22 % 2 ^ 32 = _
    omega
  have hshift12 : (t <<< 12).toNat = t.toNat * 4096 := by
    rw [UInt32.toNat_shiftLeft, Nat.shiftLeft_eq]
    change t.toNat * 2 ^ 12 % 2 ^ 32 = _
    omega
  have htable : d.toNat * 4194304 ||| t.toNat * 4096 = d.toNat * 4194304 + t.toNat * 4096 :=
    or_eq_add (k := 22) (by omega) (by omega)
  rw [pgaddr, UInt32.toNat_or, UInt32.toNat_or, hshift22, hshift12, htable]
  exact or_eq_add (k := 12) (by omega) (by omega)

theorem roundDown_toNat (a n : UInt32) (hn : 0 < n.toNat) :
    (roundDown a n).toNat = a.toNat / n.toNat * n.toNat := by
  have ha := toNat_lt a
  have hmod := Nat.mod_add_div a.toNat n.toNat
  have hlt := Nat.mod_lt a.toNat hn
  rw [roundDown, UInt32.toNat_sub, UInt32.toNat_mod, Nat.mul_comm (a.toNat / n.toNat)]
  omega

@[simp] theorem roundDown_pgsize_toNat (a : UInt32) :
    (roundDown a pgsize).toNat = a.toNat / 4096 * 4096 :=
  roundDown_toNat a pgsize (by decide)

/-- `ROUNDUP` works modulo 2^32: in the last page of the address space it
returns 0. -/
theorem roundUp_pgsize_toNat (a : UInt32) :
    (roundUp a pgsize).toNat = (a.toNat + 4095) % 4294967296 / 4096 * 4096 := by
  have hadd : (a + pgsize - 1).toNat = (a.toNat + 4095) % 4294967296 := by
    have ha := toNat_lt a
    have hp : pgsize.toNat = 4096 := rfl
    have hone : (1 : UInt32).toNat = 1 := rfl
    rw [UInt32.toNat_sub, UInt32.toNat_add, hp, hone]
    omega
  rw [roundUp, roundDown_pgsize_toNat, hadd]

end Jos
