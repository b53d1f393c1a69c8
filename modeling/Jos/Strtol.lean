import Jos.Lib.Numeral
import Jos.Printfmt

/-!
`strtol` reads a number from the front of a string. A `long` is 32 bits wide
and its arithmetic wraps. Where the source steps a pointer along the string,
the steps here return what is left of it; nothing left means that the pointer
is at the NUL.
-/

namespace Jos

/-- `while (*s == ' ' || *s == '\t') s++;` -/
def gobble (s : List UInt8) : List UInt8 :=
  s.dropWhile (fun c => c = ' '.toUInt8 ∨ c = '\t'.toUInt8)

/-- The sign: `neg`, and the rest. -/
def signOf : List UInt8 → Bool × List UInt8
  | [] => (false, [])
  | c :: s =>
    if c = '+'.toUInt8 then (false, s)
    else if c = '-'.toUInt8 then (true, s)
    else (false, c :: s)

/-- The prefix of the base: the base, and the rest. -/
def basePrefix (base : Int32) (s : List UInt8) : Int32 × List UInt8 :=
  if (base = 0 ∨ base = 16) ∧ s[0]? = some '0'.toUInt8 ∧ s[1]? = some 'x'.toUInt8 then
    (16, s.drop 2)
  else if base = 0 ∧ s[0]? = some '0'.toUInt8 then (8, s.drop 1)
  else if base = 0 then (10, s)
  else (base, s)

/-- `dig` for one character, none where the loop breaks. -/
def digitOf (c : UInt8) : Option Int32 :=
  let ch := charToInt c
  if charToInt '0'.toUInt8 ≤ ch ∧ ch ≤ charToInt '9'.toUInt8 then
    some (ch - charToInt '0'.toUInt8)
  else if charToInt 'a'.toUInt8 ≤ ch ∧ ch ≤ charToInt 'z'.toUInt8 then
    some (ch - charToInt 'a'.toUInt8 + 10)
  else if charToInt 'A'.toUInt8 ≤ ch ∧ ch ≤ charToInt 'Z'.toUInt8 then
    some (ch - charToInt 'A'.toUInt8 + 10)
  else none

/-- The loop over the digits: `val`, and the rest. -/
def accumulate (base : Int32) : Int32 → List UInt8 → Int32 × List UInt8
  | val, [] => (val, [])
  | val, c :: s =>
    match digitOf c with
    | none => (val, c :: s)
    | some dig => if base ≤ dig then (val, c :: s) else accumulate base (val * base + dig) s

/-- The result, and the bytes from `*endptr` on. -/
def strtol (s : CString) (base : Int32) : Int32 × List UInt8 :=
  let (neg, s) := signOf (gobble s.bytes)
  let (base, s) := basePrefix base s
  let (val, s) := accumulate base 0 s
  (if neg then -val else val, s)

/-- The characters of a numeral, as `printnum` writes them. -/
def digitText (b n : Nat) : List UInt8 :=
  (numeral b n).map (fun d => digits.getD d 0)

theorem digitText_zero (b : Nat) : digitText b 0 = ['0'.toUInt8] := by
  unfold digitText
  rw [numeral_zero]
  rfl

section

variable {b d n : Nat}

theorem digitOf_digit (h : d < 16) : digitOf (digits.getD d 0) = some (Int32.ofNat d) := by
  interval_cases d <;> rfl

theorem digit_ne (h : d < 16) :
    digits.getD d 0 ≠ 0 ∧ digits.getD d 0 ≠ ' '.toUInt8 ∧ digits.getD d 0 ≠ '\t'.toUInt8 ∧
      digits.getD d 0 ≠ '+'.toUInt8 ∧ digits.getD d 0 ≠ '-'.toUInt8 ∧
      digits.getD d 0 ≠ 'x'.toUInt8 := by
  interval_cases d <;> decide

theorem digit_eq_zero (h : d < 16) (hzero : digits.getD d 0 = '0'.toUInt8) : d = 0 := by
  revert hzero
  interval_cases d <;> decide

theorem digit_of_text (hb : 1 < b) (hbound : b ≤ 16) {c : UInt8} (hc : c ∈ digitText b n) :
    ∃ d, d < 16 ∧ c = digits.getD d 0 := by
  obtain ⟨d, hd, rfl⟩ := List.mem_map.mp hc
  exact ⟨d, lt_of_lt_of_le (lt_of_mem_numeral hb hd) hbound, rfl⟩

theorem accumulate_digits (hbound : b ≤ 16) (ds : List Nat) (hds : ∀ d ∈ ds, d < b)
    (val : Int32) :
    accumulate (Int32.ofNat b) val (ds.map (fun d => digits.getD d 0)) =
      (ds.foldl (fun v d => v * Int32.ofNat b + Int32.ofNat d) val, []) := by
  induction ds generalizing val with
  | nil => rfl
  | cons d ds ih =>
    have hd := hds d List.mem_cons_self
    have hfits : ¬ Int32.ofNat b ≤ Int32.ofNat d := by
      rw [Int32.le_iff_toInt_le, Int32.toInt_ofNat_of_lt (by omega),
        Int32.toInt_ofNat_of_lt (by omega)]
      omega
    rw [List.map_cons, accumulate, digitOf_digit (by omega)]
    simp only [hfits, if_false]
    exact ih (fun d hd => hds d (List.mem_cons_of_mem _ hd)) _

/-- The digits of a number of any size are read to the end, and what they come
to is the number at 32 bits. -/
theorem accumulate_numeral (hb : 1 < b) (hbound : b ≤ 16) (n : Nat) :
    accumulate (Int32.ofNat b) 0 (digitText b n) = (Int32.ofNat n, []) := by
  unfold digitText
  rw [accumulate_digits hbound _ (fun d hd => lt_of_mem_numeral hb hd)]
  have hvalue := foldl_numeral_hom (b := b) Int32.ofNat
    (fun v d => v * Int32.ofNat b + Int32.ofNat d)
    (fun v d => by rw [Int32.ofNat_add, Int32.ofNat_mul]) n
  rw [← hvalue]
  rfl

theorem gobble_blanks (k : Nat) (s : List UInt8) :
    gobble (List.replicate k ' '.toUInt8 ++ s) = gobble s := by
  induction k with
  | zero => rfl
  | succ k ih => exact ih

theorem gobble_cons {c : UInt8} (hspace : c ≠ ' '.toUInt8) (htab : c ≠ '\t'.toUInt8)
    (s : List UInt8) : gobble (c :: s) = c :: s := by
  unfold gobble
  rw [List.dropWhile_cons_of_neg]
  simp [hspace, htab]

theorem signOf_cons {c : UInt8} (hplus : c ≠ '+'.toUInt8) (hminus : c ≠ '-'.toUInt8)
    (s : List UInt8) : signOf (c :: s) = (false, c :: s) := by
  simp only [signOf, hplus, hminus, if_false]

/-- A numeral starts with neither a blank nor a sign. -/
theorem signOf_digits (hb : 1 < b) (hbound : b ≤ 16) (k n : Nat) :
    signOf (gobble (List.replicate k ' '.toUInt8 ++ digitText b n)) =
      (false, digitText b n) := by
  rw [gobble_blanks]
  cases htext : digitText b n with
  | nil => exact absurd (List.map_eq_nil_iff.mp htext) (numeral_ne_nil b n)
  | cons c s =>
    obtain ⟨d, hd, rfl⟩ := digit_of_text hb hbound (htext ▸ List.mem_cons_self)
    obtain ⟨-, hspace, htab, hplus, hminus, -⟩ := digit_ne hd
    rw [gobble_cons hspace htab, signOf_cons hplus hminus]

/-- No numeral goes on with the `x` of a prefix. -/
theorem digitText_no_x (hb : 1 < b) (hbound : b ≤ 16) (n i : Nat) :
    (digitText b n)[i]? ≠ some 'x'.toUInt8 := by
  intro hx
  obtain ⟨d, hd, heq⟩ := digit_of_text hb hbound (List.mem_of_getElem? hx)
  exact (digit_ne hd).2.2.2.2.2 heq.symm

/-- With its own base given, the whole numeral is left to the digits. -/
theorem basePrefix_given (hb : 1 < b) (hbound : b ≤ 16) (n : Nat) :
    basePrefix (Int32.ofNat b) (digitText b n) = (Int32.ofNat b, digitText b n) := by
  have hx := digitText_no_x hb hbound n 1
  have hbase : Int32.ofNat b ≠ 0 := by
    intro hzero
    have hint := congrArg Int32.toInt hzero
    rw [Int32.toInt_ofNat_of_lt (by omega), Int32.toInt_zero] at hint
    omega
  unfold basePrefix
  simp only [hx, hbase, and_false, false_and, if_false]

/-- Base 0 takes a decimal numeral for decimal, but for zero, whose only digit
it takes for the octal prefix. -/
theorem basePrefix_decimal (n : Nat) :
    accumulate (basePrefix 0 (digitText 10 n)).1 0 (basePrefix 0 (digitText 10 n)).2 =
      (Int32.ofNat n, []) := by
  by_cases hn : n = 0
  · subst hn
    rw [digitText_zero]
    rfl
  · have hzero : (digitText 10 n)[0]? ≠ some '0'.toUInt8 := by
      obtain ⟨d, ds, hnumeral, hd⟩ := numeral_head_pos (b := 10) hn
      have hlt : d < 10 := lt_of_mem_numeral (by omega) (hnumeral ▸ List.mem_cons_self)
      unfold digitText
      rw [hnumeral, List.map_cons, List.getElem?_cons_zero]
      exact fun heq => hd (digit_eq_zero (by omega) (Option.some.inj heq))
    have hwhole : basePrefix 0 (digitText 10 n) = (Int32.ofNat 10, digitText 10 n) := by
      unfold basePrefix
      simp only [hzero, false_and, and_false, if_false, if_true]
      rfl
    rw [hwhole]
    exact accumulate_numeral (by omega) (by omega) n

/-- The prefix that `%p` prints stands for base 16. -/
theorem basePrefix_pointer {base : Int32} (hbase : base = 0 ∨ base = 16) (s : List UInt8) :
    basePrefix base ('0'.toUInt8 :: 'x'.toUInt8 :: s) = (16, s) := by
  unfold basePrefix
  rw [if_pos ⟨hbase, rfl, rfl⟩]
  rfl

end

end Jos
