import Jos.Lib.Words
import Jos.NumberLayout
import Jos.StringLayout

/-!
The results of the `int` operations that the formatter performs, before they wrap, and when
all of them are `int`s.
-/

namespace Jos

def IsInt (r : Int) : Prop := -2 ^ 31 ≤ r ∧ r < 2 ^ 31

/-- None of some operations has overflowed. -/
def AllInt (ops : List Int) : Prop := ∀ r ∈ ops, IsInt r

@[simp] theorem allInt_nil : AllInt [] := nofun

@[simp] theorem allInt_cons {r : Int} {ops : List Int} :
    AllInt (r :: ops) ↔ IsInt r ∧ AllInt ops := List.forall_mem_cons

@[simp] theorem allInt_append {ops more : List Int} :
    AllInt (ops ++ more) ↔ AllInt ops ∧ AllInt more := List.forall_mem_append

/-- `n--` until `n > 0` fails. -/
def downOps (n : Int32) : List Int :=
  (List.range n.toNatClampNeg).map (fun i : Nat => n.toInt - 1 - i)

def printnumOps (num : UInt64) (base : Base) (width : Int32) : List Int :=
  if base.val ≤ num then (width.toInt - 1) :: printnumOps (num / base.val) base (width - 1)
  else (width.toInt - 1) :: downOps (width - 1)
termination_by num.toNat
decreasing_by
  have hnum : base.val.toNat ≤ num.toNat := by assumption
  have hbase : 1 < base.val.toNat := by cases base <;> decide
  rw [UInt64.toNat_div]
  exact Nat.div_lt_self (by omega) hbase

/-- `precision = precision * 10 + ch - '0'`, from left to right. -/
def digitOps (precision : Int32) (ch : UInt8) : List Int :=
  [precision.toInt * 10, (precision * 10).toInt + (ucharToInt ch).toInt,
    (precision * 10 + ucharToInt ch).toInt - (ucharToInt '0'.toUInt8).toInt]

def readPrecisionOps (fmt : CString) (precision : Int32) (ch : UInt8) (pos : Nat) : List Int :=
  match _h : fmt.byteAt pos with
  | none => digitOps precision ch
  | some next =>
    if next < '0'.toUInt8 ∨ '9'.toUInt8 < next then digitOps precision ch
    else digitOps precision ch ++ readPrecisionOps fmt
      (precision * 10 + ucharToInt ch - ucharToInt '0'.toUInt8) next (pos + 1)
termination_by fmt.bytes.length + 1 - pos
decreasing_by
  have hpos := (List.getElem?_eq_some_iff.mp _h).1
  rw [List.length_append, List.length_singleton] at hpos
  omega

/-- The operations of `reswitch`. -/
def reswitchOps (fmt : CString) (args : Args) (d : Directive) (pos ap : Nat) : List Int :=
  match _h : fmt.byteAt pos with
  | none => []
  | some ch =>
    if ch = '-'.toUInt8 then
      reswitchOps fmt args { d with padc := '-'.toUInt8 } (pos + 1) ap
    else if ch = '0'.toUInt8 then
      reswitchOps fmt args { d with padc := '0'.toUInt8 } (pos + 1) ap
    else if '1'.toUInt8 ≤ ch ∧ ch ≤ '9'.toUInt8 then
      match _hread : readPrecision fmt 0 ch (pos + 1) with
      | .error _ => readPrecisionOps fmt 0 ch (pos + 1)
      | .ok (precision, pos') =>
        readPrecisionOps fmt 0 ch (pos + 1) ++
          reswitchOps fmt args ({ d with precision := precision } : Directive).processPrecision
            pos' ap
    else if ch = '*'.toUInt8 then
      let d := { d with precision := (args ap).word.toInt32 }
      reswitchOps fmt args d.processPrecision (pos + 1) (ap + 1)
    else if ch = '.'.toUInt8 then
      reswitchOps fmt args (if d.width < 0 then { d with width := 0 } else d) (pos + 1) ap
    else if ch = '#'.toUInt8 then
      reswitchOps fmt args { d with altflag := true } (pos + 1) ap
    else if ch = 'l'.toUInt8 then
      (d.lflag.toInt + 1) :: reswitchOps fmt args { d with lflag := d.lflag + 1 } (pos + 1) ap
    else []
termination_by fmt.bytes.length + 1 - pos
decreasing_by all_goals
  have hpos := (List.getElem?_eq_some_iff.mp _h).1
  rw [List.length_append, List.length_singleton] at hpos
  first
  | omega
  | have hread := readPrecision_le _hread
    omega

/-- The loop of `%s` over the characters. -/
def putCharsOps : List UInt8 → Int32 → Int32 → List Int
  | [], _, _ => []
  | _ :: s, precision, width =>
    if precision < 0 then (width.toInt - 1) :: putCharsOps s precision (width - 1)
    else if 0 ≤ precision - 1 then
      (precision.toInt - 1) :: (width.toInt - 1) :: putCharsOps s (precision - 1) (width - 1)
    else [precision.toInt - 1]

def putStringOps (d : Directive) (s : CString) : List Int :=
  let leadOps :=
    if 0 < d.width ∧ d.padc ≠ '-'.toUInt8 then
      let n := strnlen s.bytes d.precision.toUInt32.toNat
      (d.width.toInt - n.toInt) :: downOps (d.width - n)
    else []
  let (_, width) := putLead d s.bytes
  let (_, rest) := putChars s.bytes d.precision width d.altflag
  leadOps ++ putCharsOps s.bytes d.precision width ++ downOps rest

/-- `err = -err` -/
def errorOps (err : Int32) : List Int :=
  if err < 0 then [-err.toInt] else []

/-- The `err` of `error_string[err]`. -/
def errorIndex (err : Int32) : Option Int32 :=
  let err := if err < 0 then -err else err
  if maxError ≤ err then none else some err

/-- The operations of a conversion. -/
def convertOps (ch : UInt8) (d : Directive) (args : Args) (ap : Nat) : List Int :=
  if ch = 'c'.toUInt8 then []
  else if ch = 'e'.toUInt8 then errorOps (args ap).word.toInt32
  else if ch = 's'.toUInt8 then
    let s := if (args ap).word = 0 then .lit "(null)" else (args ap).str
    putStringOps d s
  else if ch = 'd'.toUInt8 then
    let (num, _) := getint args ap d.lflag
    printnumOps (if num < 0 then -num else num).toUInt64 .decimal d.width
  else if ch = 'u'.toUInt8 then printnumOps (getuint args ap d.lflag).1 .decimal d.width
  else if ch = 'o'.toUInt8 then printnumOps (getuint args ap d.lflag).1 .octal d.width
  else if ch = 'p'.toUInt8 then printnumOps (args ap).word.toUInt64 .hexadecimal d.width
  else if ch = 'x'.toUInt8 then printnumOps (getuint args ap d.lflag).1 .hexadecimal d.width
  else []

section

variable {fmt : CString} {args : Args} {d : Directive} {pos ap : Nat}

theorem allInt_downOps (n : Int32) : AllInt (downOps n) := by
  intro r hr
  obtain ⟨i, hi, rfl⟩ := List.mem_map.mp hr
  have hlt := List.mem_range.mp hi
  have hhigh := n.toInt_lt
  rw [← Int32.toNat_toInt] at hlt
  constructor <;> omega

theorem toInt_sub_one {n : Int32} (h : IsInt (n.toInt - 1)) : (n - 1).toInt = n.toInt - 1 := by
  have hone : (1 : Int32).toInt = 1 := rfl
  obtain ⟨hlow, hhigh⟩ := h
  rw [Int32.toInt_sub, hone]
  exact Int.bmod_eq_of_le (by omega) (by omega)

/-- Each digit takes one from the width. -/
theorem allInt_printnumOps (num : UInt64) (base : Base) (width : Int32) :
    AllInt (printnumOps num base width) ↔
      (digitText base.val.toNat num.toNat).length ≤ width.toInt + 2 ^ 31 := by
  induction hnum : num.toNat using Nat.strong_induction_on generalizing num width with
  | _ n ih =>
    subst hnum
    have hbase : 1 < base.val.toNat := base.bounds.1
    have hlow := width.le_toInt
    have hhigh := width.toInt_lt
    have hfirst : IsInt (width.toInt - 1) ↔ 1 ≤ width.toInt + 2 ^ 31 := by
      unfold IsInt
      omega
    rw [printnumOps]
    split
    · next hle =>
      have hge : base.val.toNat ≤ num.toNat := UInt64.le_iff_toNat_le.mp hle
      have hdiv : (num / base.val).toNat = num.toNat / base.val.toNat := UInt64.toNat_div _ _
      have hlt : (num / base.val).toNat < num.toNat := by
        rw [hdiv]
        exact Nat.div_lt_self (by omega) hbase
      have hlength : (digitText base.val.toNat num.toNat).length =
          (digitText base.val.toNat (num / base.val).toNat).length + 1 := by
        unfold digitText
        rw [numeral_of_le hbase hge, hdiv]
        simp
      rw [allInt_cons, ih _ hlt _ _ rfl, hlength]
      by_cases hint : IsInt (width.toInt - 1)
      · rw [toInt_sub_one hint, iff_true_intro hint, true_and]
        omega
      · rw [iff_false_intro hint, false_and, false_iff]
        rw [hfirst] at hint
        omega
    · next hlt =>
      have hsmall : num.toNat < base.val.toNat :=
        lt_of_not_ge (fun h => hlt (UInt64.le_iff_toNat_le.mpr h))
      have hlength : (digitText base.val.toNat num.toNat).length = 1 := by
        unfold digitText
        rw [numeral_of_lt hsmall]
        rfl
      rw [allInt_cons, iff_true_intro (allInt_downOps _), and_true, hfirst, hlength]
      rfl

/-- Each character takes one from the width; the precision stays above -2. -/
theorem allInt_putCharsOps (bytes : List UInt8) (precision width : Int32) :
    AllInt (putCharsOps bytes precision width) ↔
      ((admitted precision bytes).length : Int) ≤ width.toInt + 2 ^ 31 := by
  induction bytes generalizing precision width with
  | nil =>
    have hlow := width.le_toInt
    have hnone : admitted precision [] = [] := by simp [admitted]
    rw [hnone, putCharsOps, iff_true_intro allInt_nil, true_iff, List.length_nil]
    omega
  | cons c bytes ih =>
    have hzero : (0 : Int32).toInt = 0 := rfl
    have hlow := width.le_toInt
    have hhigh := width.toInt_lt
    have hlimit := precision.toInt_lt
    have hcharacter : ∀ next, (IsInt (width.toInt - 1) ∧
        AllInt (putCharsOps bytes next (width - 1))) ↔
        ((c :: admitted next bytes).length : Int) ≤ width.toInt + 2 ^ 31 := by
      intro next
      rw [ih, List.length_cons]
      by_cases hint : IsInt (width.toInt - 1)
      · rw [toInt_sub_one hint, iff_true_intro hint, true_and]
        omega
      · rw [iff_false_intro hint, false_and, false_iff]
        unfold IsInt at hint
        omega
    rw [putCharsOps, admitted_cons]
    by_cases hneg : precision < 0
    · rw [if_pos hneg, if_pos hneg, allInt_cons]
      exact hcharacter precision
    · have hprecision : IsInt (precision.toInt - 1) := by
        rw [Int32.lt_iff_toInt_lt, hzero] at hneg
        unfold IsInt
        omega
      rw [if_neg hneg, if_neg hneg]
      split
      · rw [allInt_cons, iff_true_intro hprecision, true_and, allInt_cons]
        exact hcharacter (precision - 1)
      · rw [allInt_cons, iff_true_intro hprecision, iff_true_intro allInt_nil, List.length_nil]
        simp only [and_self, true_iff]
        omega

/-- What the width of a string can be, so that counting its characters keeps to `int`s. -/
def StringTame (d : Directive) (s : CString) : Prop :=
  let n := (admitted d.precision s.bytes).length
  if 0 < d.width ∧ d.padc ≠ '-'.toUInt8 then (2 * n : Int) ≤ d.width.toInt + 2 ^ 31
  else (n : Int) ≤ d.width.toInt + 2 ^ 31

theorem size_of_neg {precision : Int32} (hneg : precision < 0) :
    2 ^ 31 ≤ precision.toUInt32.toNat := by
  by_contra hsmall
  have hnot := ofNat_not_neg (Nat.lt_of_not_le hsmall)
  rw [ofNat_toNat, Int32.toInt32_toUInt32] at hnot
  exact hnot hneg

/-- The most characters that `strnlen` counts, in an address space or not, are `size`. -/
theorem strnlen_short {precision : Int32} {bytes : List UInt8}
    (hn : (admitted precision bytes).length < 2 ^ 31) :
    (strnlen bytes precision.toUInt32.toNat).toInt = (admitted precision bytes).length := by
  have hmin : min bytes.length precision.toUInt32.toNat = (admitted precision bytes).length := by
    unfold admitted at hn ⊢
    by_cases hneg : precision < 0
    · have hsize := size_of_neg hneg
      rw [if_pos hneg] at hn ⊢
      omega
    · rw [if_neg hneg, List.length_take, Int32.toNat_toUInt32_of_le (Int32.not_lt.mp hneg),
        Nat.min_comm]
  rw [strnlen_eq, hmin, Int32.toInt_ofNat_of_lt hn]

/-- A string of `2 ^ 31` characters and no more is counted as the least `int`. -/
theorem strnlen_wrapped {precision : Int32} {bytes : List UInt8}
    (hn : (admitted precision bytes).length = 2 ^ 31) :
    (strnlen bytes precision.toUInt32.toNat).toInt = -2 ^ 31 := by
  have hmin : min bytes.length precision.toUInt32.toNat = 2 ^ 31 := by
    unfold admitted at hn
    by_cases hneg : precision < 0
    · have hsize := size_of_neg hneg
      rw [if_pos hneg] at hn
      omega
    · have hlimit := precision.toInt_lt
      rw [if_neg hneg, List.length_take, ← Int32.toNat_toInt] at hn
      omega
  rw [strnlen_eq, hmin]
  rfl

theorem putStringOps_left {d : Directive} {s : CString}
    (hlead : 0 < d.width ∧ d.padc ≠ '-'.toUInt8) :
    let n := strnlen s.bytes d.precision.toUInt32.toNat
    let width := if 0 < d.width - n then 0 else d.width - n
    AllInt (putStringOps d s) ↔ IsInt (d.width.toInt - n.toInt) ∧
      ((admitted d.precision s.bytes).length : Int) ≤ width.toInt + 2 ^ 31 := by
  intro n width
  have hops : putStringOps d s = (d.width.toInt - n.toInt) :: downOps (d.width - n) ++
      putCharsOps s.bytes d.precision width ++
      downOps (putChars s.bytes d.precision width d.altflag).2 := by
    unfold putStringOps
    rw [putLead_eq, if_pos hlead, if_pos hlead]
  rw [hops, allInt_append, allInt_append, allInt_cons, allInt_putCharsOps]
  simp only [allInt_downOps, and_true]

theorem putStringOps_right {d : Directive} {s : CString}
    (hlead : ¬ (0 < d.width ∧ d.padc ≠ '-'.toUInt8)) :
    AllInt (putStringOps d s) ↔
      ((admitted d.precision s.bytes).length : Int) ≤ d.width.toInt + 2 ^ 31 := by
  have hops : putStringOps d s = [] ++ putCharsOps s.bytes d.precision d.width ++
      downOps (putChars s.bytes d.precision d.width d.altflag).2 := by
    unfold putStringOps
    rw [putLead_eq, if_neg hlead, if_neg hlead]
  rw [hops, allInt_append, allInt_append, allInt_putCharsOps]
  simp only [allInt_nil, allInt_downOps, true_and, and_true]

theorem allInt_putStringOps (d : Directive) (s : CString) :
    AllInt (putStringOps d s) ↔ StringTame d s := by
  have hzero : (0 : Int32).toInt = 0 := rfl
  unfold StringTame
  by_cases hlead : 0 < d.width ∧ d.padc ≠ '-'.toUInt8
  · have hpos : 0 < d.width.toInt := Int32.lt_iff_toInt_lt.mp hlead.1
    have hhigh := d.width.toInt_lt
    have hops := putStringOps_left (s := s) hlead
    dsimp only at hops ⊢
    rw [hops, if_pos hlead]
    generalize hm : strnlen s.bytes d.precision.toUInt32.toNat = m
    have hrest : (if 0 < d.width - m then 0 else d.width - m).toInt =
        if 0 < (d.width - m).toInt then 0 else (d.width - m).toInt := by
      simp only [Int32.lt_iff_toInt_lt, hzero]
      split <;> rfl
    rw [hrest]
    rcases Nat.lt_or_ge (admitted d.precision s.bytes).length (2 ^ 31) with hlt | hge
    · have hcount : m.toInt = (admitted d.precision s.bytes).length := hm ▸ strnlen_short hlt
      have hleft : (d.width - m).toInt = d.width.toInt - m.toInt := by
        rw [Int32.toInt_sub]
        exact Int.bmod_eq_of_le (by omega) (by omega)
      rw [hleft, hcount]
      unfold IsInt
      split <;> omega
    · refine iff_of_false ?_ (by omega)
      rintro ⟨hint, hrest⟩
      have hlong : (admitted d.precision s.bytes).length = 2 ^ 31 := by
        split at hrest <;> omega
      have hcount : m.toInt = -2 ^ 31 := hm ▸ strnlen_wrapped hlong
      unfold IsInt at hint
      omega
  · rw [putStringOps_right hlead, if_neg hlead]

end

end Jos
