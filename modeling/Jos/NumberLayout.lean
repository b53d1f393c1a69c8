import Jos.Cputs

/-!
How the number formats fill a field: the digits with the sign before them, padded to the
width, compared with what `printnum` and `vprintfmt` do.
-/

namespace Jos

/-- The letters of the number formats with their bases. -/
def Numeric (letter : UInt8) (base : Base) : Prop :=
  (letter = 'd'.toUInt8 ∧ base = .decimal) ∨ Unsigned letter base

/-- The argument of `%d`; two `l`s make it a `long long`. -/
def signedArg (args : Args) (ap : Nat) (lflag : Int32) : Int :=
  if 2 ≤ lflag then (ulonglong args ap).toInt64.toInt else (args ap).word.toInt32.toInt

/-- The argument of the other formats. -/
def unsignedArg (args : Args) (ap : Nat) (lflag : Int32) : Nat :=
  if 2 ≤ lflag then (ulonglong args ap).toNat else (args ap).word.toNat

def numberArg (letter : UInt8) (args : Args) (ap : Nat) (lflag : Int32) : Int :=
  if letter = 'd'.toUInt8 then signedArg args ap lflag else unsignedArg args ap lflag

/-- The numeral of `n` in a field of `w` characters: zeros go between the sign and the digits,
blanks before the sign, or to the right. -/
def field (padc : UInt8) (w : Nat) (base : Base) (n : Int) : List UInt8 :=
  let sign := if n < 0 then ['-'.toUInt8] else []
  let text := digitText base.val.toNat n.natAbs
  let fill := w - (sign ++ text).length
  if padc = '-'.toUInt8 then sign ++ text ++ List.replicate fill ' '.toUInt8
  else if padc = '0'.toUInt8 then sign ++ List.replicate fill '0'.toUInt8 ++ text
  else List.replicate fill ' '.toUInt8 ++ sign ++ text

/-- The field that a directive prints is the one that it asks for. -/
def LaidOut (letter : UInt8) (base : Base) (d : Directive) (args : Args) (ap : Nat) : Prop :=
  ∃ next, convert letter d args ap =
    .put ((field d.padc d.width.toNatClampNeg base (numberArg letter args ap d.lflag)).map
      charToInt) next

/-- Nothing is padded, or what is padded is a number without a sign, on the left. -/
def FieldFits (base : Base) (d : Directive) (n : Int) : Prop :=
  d.width.toNatClampNeg ≤ (digitText base.val.toNat n.natAbs).length ∨
    (0 ≤ n ∧ d.padc ≠ '-'.toUInt8)

section

variable {letter : UInt8} {base : Base} {d : Directive} {args : Args} {ap : Nat}

theorem digitText_length (base : Base) (num : UInt64) :
    (digitText base.val.toNat num.toNat).length ≤ 64 := by
  have hbase := base.bounds.1
  have hpow : num.toNat < base.val.toNat ^ 64 :=
    lt_of_lt_of_le num.toNat_lt (Nat.pow_le_pow_left hbase 64)
  unfold digitText
  rw [List.length_map]
  exact numeral_length_le hbase (by omega) hpow

/-- A field of at least -1 characters does not wrap. -/
theorem printnum_field (num : UInt64) (base : Base) (padc : UInt8) {width : Int32}
    (hwidth : -1 ≤ width) :
    printnum num base width padc =
      (List.replicate (width.toNatClampNeg - (digitText base.val.toNat num.toNat).length) padc ++
        digitText base.val.toNat num.toNat).map charToInt := by
  have hlength := digitText_length base num
  have hnumeral : (numeral base.val.toNat num.toNat).length =
      (digitText base.val.toNat num.toNat).length := (List.length_map _).symm
  have hone : (-1 : Int32).toInt = -1 := rfl
  have hlow := Int32.le_iff_toInt_le.mp hwidth
  have hhigh := width.toInt_lt
  have hfill : (width - Int32.ofNat (digitText base.val.toNat num.toNat).length).toNatClampNeg =
      width.toNatClampNeg - (digitText base.val.toNat num.toNat).length := by
    rw [hone] at hlow
    rw [← Int32.toNat_toInt, ← Int32.toNat_toInt, Int32.toInt_sub,
      Int32.toInt_ofNat_of_lt (by omega), Int.bmod_eq_of_le (by omega) (by omega)]
    omega
  rw [printnum_text, hnumeral]
  unfold putPad
  rw [hfill, List.map_append, List.map_replicate]

/-- The padding is what the field is wider than the numeral, and the digits are those of the one
numeral of the number: the recursion on the quotient prints the most significant digit first, and
spends the width where it ends. -/
theorem printnum_pads_numeral (num : UInt64) (base : Base) (padc : UInt8) (width : Int32)
    (hwidth : -1 ≤ width) :
    ∃ ds, (∀ ds', Writes base.val.toNat num.toNat ds' ↔ ds' = ds) ∧
      printnum num base width padc =
        (List.replicate (max 0 (width.toInt - ds.length)).toNat padc ++
          ds.map (fun d => digits.getD d 0)).map charToInt := by
  refine ⟨numeral base.val.toNat num.toNat, fun _ => writes_iff base.bounds.1, ?_⟩
  have hlength : (digitText base.val.toNat num.toNat).length =
      (numeral base.val.toNat num.toNat).length := List.length_map _
  have hfill : (max 0 (width.toInt - (numeral base.val.toNat num.toNat).length)).toNat =
      width.toNatClampNeg - (numeral base.val.toNat num.toNat).length := by
    rw [← Int32.toNat_toInt]
    omega
  rw [printnum_field num base padc hwidth, hfill, hlength]
  rfl

/-- `%04x` of 255. -/
theorem printnum_pads_numeral_hexadecimal :
    ∃ ds, (∀ ds', Writes 16 255 ds' ↔ ds' = ds) ∧ printnum 255 .hexadecimal 4 '0'.toUInt8 =
      (List.replicate (max 0 (4 - ds.length : Int)).toNat '0'.toUInt8 ++
        ds.map (fun d => digits.getD d 0)).map charToInt :=
  printnum_pads_numeral 255 .hexadecimal '0'.toUInt8 4 (by decide)

theorem natAbs_of_neg {n : Int64} (hn : n < 0) : (-n).toUInt64.toNat = n.toInt.natAbs := by
  have hneg : n.toBitVec.toInt < 0 := Int64.lt_iff_toInt_lt.mp hn
  have hlt := n.toBitVec.isLt
  change (-n.toBitVec).toNat = n.toBitVec.toInt.natAbs
  rw [BitVec.toInt_eq_toNat_cond] at hneg ⊢
  rw [BitVec.toNat_neg]
  split_ifs at hneg ⊢ <;> omega

theorem natAbs_of_not_neg {n : Int64} (hn : ¬ n < 0) : n.toUInt64.toNat = n.toInt.natAbs := by
  have hzero : (0 : Int64).toInt = 0 := rfl
  have hint : ¬ n.toInt < 0 := fun h => hn (Int64.lt_iff_toInt_lt.mpr h)
  rw [Int64.toNat_toUInt64_of_le (Int64.not_lt.mp hn), ← Int64.toNat_toInt]
  omega

theorem getint_toInt (args : Args) (ap : Nat) (lflag : Int32) :
    (getint args ap lflag).1.toInt = signedArg args ap lflag := by
  unfold signedArg getint
  split
  · rfl
  · exact Int32.toInt_toInt64 _

theorem getuint_toNat (args : Args) (ap : Nat) (lflag : Int32) :
    (getuint args ap lflag).1.toNat = unsignedArg args ap lflag := by
  unfold unsignedArg getuint
  split
  · rfl
  · exact UInt32.toNat_toUInt64 _

/-- What the conversion prints: the sign first, then the number in a field of its own. -/
theorem convert_numeric (hletter : Numeric letter base) (d : Directive) (args : Args) (ap : Nat) :
    ∃ (num : UInt64) (next : Nat),
      num.toNat = (numberArg letter args ap d.lflag).natAbs ∧
      convert letter d args ap =
        .put ((if numberArg letter args ap d.lflag < 0 then [charToInt '-'.toUInt8] else []) ++
          printnum num base d.width d.padc) next := by
  rcases hletter with ⟨rfl, rfl⟩ | hunsigned
  · have harg : numberArg 'd'.toUInt8 args ap d.lflag = (getint args ap d.lflag).1.toInt := by
      unfold numberArg
      rw [if_pos rfl, getint_toInt]
    have hconvert : convert 'd'.toUInt8 d args ap =
        if (getint args ap d.lflag).1 < 0 then
          .put (charToInt '-'.toUInt8 ::
            printnum (-(getint args ap d.lflag).1).toUInt64 .decimal d.width d.padc)
            (getint args ap d.lflag).2
        else .put (printnum (getint args ap d.lflag).1.toUInt64 .decimal d.width d.padc)
          (getint args ap d.lflag).2 := rfl
    have hzero : (0 : Int64).toInt = 0 := rfl
    rw [harg, hconvert]
    by_cases hneg : (getint args ap d.lflag).1 < 0
    · have hint := Int64.lt_iff_toInt_lt.mp hneg
      rw [hzero] at hint
      refine ⟨(-(getint args ap d.lflag).1).toUInt64, (getint args ap d.lflag).2,
        natAbs_of_neg hneg, ?_⟩
      rw [if_pos hneg, if_pos hint]
      rfl
    · have hint : ¬ (getint args ap d.lflag).1.toInt < 0 :=
        fun h => hneg (Int64.lt_iff_toInt_lt.mpr h)
      refine ⟨(getint args ap d.lflag).1.toUInt64, (getint args ap d.lflag).2,
        natAbs_of_not_neg hneg, ?_⟩
      rw [if_neg hneg, if_neg hint]
      rfl
  · have hne : letter ≠ 'd'.toUInt8 := by
      rcases hunsigned with ⟨rfl, -⟩ | ⟨rfl, -⟩ | ⟨rfl, -⟩ <;> decide
    have harg : numberArg letter args ap d.lflag = ((getuint args ap d.lflag).1.toNat : Int) := by
      unfold numberArg
      rw [if_neg hne, getuint_toNat]
    have hconvert : convert letter d args ap =
        .put (printnum (getuint args ap d.lflag).1 base d.width d.padc)
          (getuint args ap d.lflag).2 := by
      rcases hunsigned with ⟨rfl, rfl⟩ | ⟨rfl, rfl⟩ | ⟨rfl, rfl⟩ <;> rfl
    rw [harg, hconvert, if_neg (by omega)]
    exact ⟨_, _, rfl, rfl⟩

theorem charToInt_injective : Function.Injective charToInt := by
  intro a b h
  rw [← charToInt_low a, ← charToInt_low b, h]

/-- The padding that `printnum` puts between the sign and the digits is the one that the field
has there. -/
theorem printed_eq_field_iff {padc : UInt8} {w : Nat} {n : Int}
    (hpadc : padc = ' '.toUInt8 ∨ padc = '0'.toUInt8 ∨ padc = '-'.toUInt8) :
    (if n < 0 then ['-'.toUInt8] else []) ++
        (List.replicate (w - (digitText base.val.toNat n.natAbs).length) padc ++
          digitText base.val.toNat n.natAbs) = field padc w base n ↔
      w ≤ (digitText base.val.toNat n.natAbs).length ∨ (0 ≤ n ∧ padc ≠ '-'.toUInt8) := by
  have hblank : ' '.toUInt8 ≠ '-'.toUInt8 ∧ ' '.toUInt8 ≠ '0'.toUInt8 := by decide
  have hzero : '0'.toUInt8 ≠ '-'.toUInt8 := by decide
  have hfirst : (digitText base.val.toNat n.natAbs).head? ≠ some '-'.toUInt8 := by
    intro hhead
    obtain ⟨k, hk, heq⟩ := digit_of_text base.bounds.1 base.bounds.2
      (List.mem_of_mem_head? hhead)
    exact (digit_ne hk).2.2.2.2.1 heq.symm
  have hsome : digitText base.val.toNat n.natAbs ≠ [] := by
    unfold digitText
    exact mt List.map_eq_nil_iff.mp (numeral_ne_nil _ _)
  unfold field
  generalize digitText base.val.toNat n.natAbs = text at hfirst hsome ⊢
  dsimp only
  by_cases hneg : n < 0
  · rw [if_pos hneg]
    by_cases hw : w ≤ text.length
    · have hnone : w - text.length = 0 ∧ w - (['-'.toUInt8] ++ text).length = 0 := by
        rw [List.length_append]
        omega
      rw [hnone.1, hnone.2]
      refine iff_of_true ?_ (.inl hw)
      split
      · simp
      · split <;> simp
    · refine iff_of_false ?_ (by omega)
      intro heq
      have hlength := congrArg List.length heq
      split at hlength
      · simp at hlength
        omega
      · split at hlength
        · simp at hlength
          omega
        · simp at hlength
          omega
  · simp only [if_neg hneg, List.nil_append]
    rcases hpadc with rfl | rfl | rfl
    · rw [if_neg hblank.1, if_neg hblank.2]
      simp [hblank.1]
      omega
    · rw [if_neg hzero, if_pos rfl]
      simp [hzero]
      omega
    · rw [if_pos rfl]
      by_cases hw : w ≤ text.length
      · have hnone : w - text.length = 0 := by omega
        rw [hnone]
        exact iff_of_true (by simp) (.inl hw)
      · obtain ⟨k, hk⟩ : ∃ k, w - text.length = k + 1 := ⟨w - text.length - 1, by omega⟩
        rw [hk]
        refine iff_of_false ?_ (by simp [hw])
        intro heq
        have hhead := congrArg List.head? heq
        rw [List.replicate_succ, List.cons_append, List.head?_cons,
          List.head?_append_of_ne_nil _ hsome] at hhead
        exact hfirst hhead.symm

theorem laidOut_iff_printed (hletter : Numeric letter base) (hwidth : -1 ≤ d.width) :
    LaidOut letter base d args ap ↔
      (if numberArg letter args ap d.lflag < 0 then ['-'.toUInt8] else []) ++
        (List.replicate (d.width.toNatClampNeg -
            (digitText base.val.toNat (numberArg letter args ap d.lflag).natAbs).length) d.padc ++
          digitText base.val.toNat (numberArg letter args ap d.lflag).natAbs) =
      field d.padc d.width.toNatClampNeg base (numberArg letter args ap d.lflag) := by
  obtain ⟨num, next, hnum, hconvert⟩ := convert_numeric hletter d args ap
  unfold LaidOut
  generalize numberArg letter args ap d.lflag = n at hnum hconvert ⊢
  have hsign : (if n < 0 then [charToInt '-'.toUInt8] else []) =
      (if n < 0 then ['-'.toUInt8] else []).map charToInt := by
    split <;> rfl
  rw [hconvert, printnum_field num base d.padc hwidth, hnum, hsign, ← List.map_append]
  constructor
  · rintro ⟨next', hput⟩
    exact charToInt_injective.list_map (Conversion.put.inj hput).1
  · intro hsame
    exact ⟨next, by rw [hsame]⟩

/-- A number comes out as the field that its directive asks for exactly when nothing has to be
padded, or the number has no sign and is padded on the left. -/
theorem number_laidOut_iff (letter : UInt8) (base : Base) (d : Directive) (args : Args) (ap : Nat)
    (hletter : Numeric letter base) (hwidth : -1 ≤ d.width)
    (hpadc : d.padc = ' '.toUInt8 ∨ d.padc = '0'.toUInt8 ∨ d.padc = '-'.toUInt8) :
    LaidOut letter base d args ap ↔ FieldFits base d (numberArg letter args ap d.lflag) :=
  (laidOut_iff_printed hletter hwidth).trans (printed_eq_field_iff hpadc)

/-- `%5lld` of 42. -/
theorem number_laidOut_iff_long :
    LaidOut 'd'.toUInt8 .decimal { width := 5, lflag := 2 }
      (fun ap => ⟨if ap = 0 then 42 else 0, .lit ""⟩) 0 := by
  refine (number_laidOut_iff _ .decimal { width := 5, lflag := 2 } _ 0
    (.inl ⟨rfl, rfl⟩) (by decide) (.inl rfl)).mpr (.inr ⟨?_, by decide⟩)
  decide

/-- `%3d` of -5: the blanks stand between the sign and the digit, and there is one too many. -/
theorem sign_left_of_blanks :
    ¬ LaidOut 'd'.toUInt8 .decimal { width := 3 } (fun _ => ⟨0xFFFFFFFB, .lit ""⟩) 0 := by
  have harg : numberArg 'd'.toUInt8 (fun _ => ⟨0xFFFFFFFB, .lit ""⟩) 0 0 = -5 := by decide
  have htext : digitText 10 5 = ['5'.toUInt8] := by
    unfold digitText
    rw [numeral_of_lt (by decide)]
    rfl
  rw [laidOut_iff_printed (.inl ⟨rfl, rfl⟩) (by decide), printed_eq_field_iff (.inl rfl), harg]
  change ¬ (3 ≤ (digitText 10 5).length ∨ _)
  rw [htext]
  decide

end

end Jos
