import Jos.Cputs

/-!
What `vprintfmt` makes of the flags, the width and the precision of a directive, compared
with the directive as it is written.
-/

namespace Jos

inductive Flag where
  | minus
  | zero
  | alternate
deriving DecidableEq

def Flag.byte : Flag → UInt8
  | .minus => '-'.toUInt8
  | .zero => '0'.toUInt8
  | .alternate => '#'.toUInt8

/-- The number that decimal digits write, the most significant one first. -/
def decimalValue (ds : List Nat) : Nat := ds.foldl (fun v d => v * 10 + d) 0

/-- A directive behind its `%`: flags, a width, a precision, `l`s, and the letter of the
conversion. The width has no leading zero; the precision is any digits, or none. -/
structure Spelling where
  flags : List Flag
  width : Option Nat
  precision : Option (List Nat)
  longs : Nat
  letter : UInt8
  width_pos : ∀ n ∈ width, 0 < n ∧ n < 2 ^ 31
  precision_digits : ∀ ds ∈ precision, (∀ d ∈ ds, d < 10) ∧ decimalValue ds < 2 ^ 31
  known : Recognized letter

namespace Spelling

def widthText : Option Nat → List UInt8
  | none => []
  | some n => digitText 10 n

def precisionText : Option (List Nat) → List UInt8
  | none => []
  | some ds => '.'.toUInt8 :: ds.map (fun d => digits.getD d 0)

/-- From the width on. -/
def tailText (w : Spelling) : List UInt8 :=
  precisionText w.precision ++ (List.replicate w.longs 'l'.toUInt8 ++ [w.letter])

def text (w : Spelling) : List UInt8 :=
  w.flags.map Flag.byte ++ (widthText w.width ++ w.tailText)

/-- The padding that the last of some flags asks for. -/
def padding (padc : UInt8) (flags : List Flag) : UInt8 :=
  flags.foldl (fun padc flag => if flag = .alternate then padc else flag.byte) padc

/-- A directive has come out as it is written. A width or a precision that is not written is
not positive, or -1. -/
structure AsWritten (w : Spelling) (d : Directive) : Prop where
  padc : d.padc = padding ' '.toUInt8 w.flags
  altflag : d.altflag = decide (Flag.alternate ∈ w.flags)
  width : match w.width with
    | none => d.width ≤ 0
    | some n => d.width.toInt = n
  precision : match w.precision with
    | none => d.precision = -1
    | some ds => d.precision.toInt = decimalValue ds
  lflag : d.lflag.toInt = w.longs

/-- What comes out of a precision: zeros in front are taken for flags. -/
def precisionParsed (d : Directive) : Option (List Nat) → Directive
  | none => d
  | some ds =>
    { d with
      padc := if ds.head? = some 0 then '0'.toUInt8 else d.padc
      width := if d.width < 0 then 0 else d.width
      precision := if decimalValue ds = 0 then -1 else Int32.ofNat (decimalValue ds) }

def parsed (w : Spelling) : Directive :=
  let d : Directive :=
    { padc := padding ' '.toUInt8 w.flags
      altflag := decide (Flag.alternate ∈ w.flags)
      width := match w.width with
        | none => -1
        | some n => Int32.ofNat n
      precision := -1
      lflag := 0 }
  { precisionParsed d w.precision with lflag := Int32.ofNat w.longs }

end Spelling

/-- The text stands in the format from `pos` on. -/
def StandsIn (fmt : CString) (pos : Nat) (text : List UInt8) : Prop :=
  ∀ i c, text[i]? = some c → fmt.byteAt (pos + i) = some c

section

variable {fmt : CString} {args : Args} {d : Directive} {pos ap : Nat} {c : UInt8}
  {text more : List UInt8}

theorem StandsIn.head (h : StandsIn fmt pos (c :: text)) : fmt.byteAt pos = some c :=
  h 0 c rfl

theorem StandsIn.tail (h : StandsIn fmt pos (c :: text)) : StandsIn fmt (pos + 1) text := by
  intro i b hb
  have hpos : pos + 1 + i = pos + (i + 1) := by omega
  rw [hpos]
  exact h (i + 1) b hb

theorem StandsIn.right (h : StandsIn fmt pos (text ++ more)) :
    StandsIn fmt (pos + text.length) more := by
  intro i b hb
  rw [Nat.add_assoc]
  apply h
  rw [List.getElem?_append_right (Nat.le_add_right _ _), Nat.add_sub_cancel_left]
  exact hb

theorem StandsIn.left (h : StandsIn fmt pos (text ++ more)) : StandsIn fmt pos text := by
  intro i b hb
  apply h
  rw [List.getElem?_append_left (List.getElem?_eq_some_iff.mp hb).1]
  exact hb

theorem StandsIn.to_stop {rest : List UInt8} {stop : UInt8}
    (h : StandsIn fmt pos (text ++ stop :: rest)) : StandsIn fmt pos (text ++ [stop]) := by
  have hsplit : text ++ stop :: rest = text ++ [stop] ++ rest := by simp
  rw [hsplit] at h
  exact h.left

theorem reswitch_minus (hread : fmt.byteAt pos = some '-'.toUInt8) :
    reswitch fmt args d pos ap =
      reswitch fmt args { d with padc := '-'.toUInt8 } (pos + 1) ap := by
  rw [reswitch]
  split
  · next hnone =>
    rw [hread] at hnone
    cases hnone
  · next c hsome =>
    rw [hread] at hsome
    obtain rfl := Option.some.inj hsome
    rfl

theorem reswitch_alt (hread : fmt.byteAt pos = some '#'.toUInt8) :
    reswitch fmt args d pos ap = reswitch fmt args { d with altflag := true } (pos + 1) ap := by
  rw [reswitch]
  split
  · next hnone =>
    rw [hread] at hnone
    cases hnone
  · next c hsome =>
    rw [hread] at hsome
    obtain rfl := Option.some.inj hsome
    rfl

theorem reswitch_long (hread : fmt.byteAt pos = some 'l'.toUInt8) :
    reswitch fmt args d pos ap =
      reswitch fmt args { d with lflag := d.lflag + 1 } (pos + 1) ap := by
  rw [reswitch]
  split
  · next hnone =>
    rw [hread] at hnone
    cases hnone
  · next c hsome =>
    rw [hread] at hsome
    obtain rfl := Option.some.inj hsome
    rfl

theorem reswitch_flags (flags : List Flag) (h : StandsIn fmt pos (flags.map Flag.byte)) :
    reswitch fmt args d pos ap = reswitch fmt args
      { d with
        padc := Spelling.padding d.padc flags
        altflag := d.altflag || decide (Flag.alternate ∈ flags) } (pos + flags.length) ap := by
  induction flags generalizing d pos with
  | nil => simp [Spelling.padding]
  | cons flag flags ih =>
    have hpos : pos + (flag :: flags).length = pos + 1 + flags.length := by
      rw [List.length_cons]
      omega
    rw [List.map_cons] at h
    rw [hpos]
    cases flag with
    | minus =>
      rw [reswitch_minus h.head, ih h.tail]
      simp [Spelling.padding, Flag.byte]
    | zero =>
      rw [reswitch_zero h.head, ih h.tail]
      simp [Spelling.padding, Flag.byte]
    | alternate =>
      rw [reswitch_alt h.head, ih h.tail]
      simp [Spelling.padding]

theorem reswitch_longs (k : Nat) (h : StandsIn fmt pos (List.replicate k 'l'.toUInt8)) :
    reswitch fmt args d pos ap =
      reswitch fmt args { d with lflag := d.lflag + Int32.ofNat k } (pos + k) ap := by
  induction k generalizing d pos with
  | zero =>
    have hzero : Int32.ofNat 0 = 0 := rfl
    rw [hzero, Int32.add_zero]
    rfl
  | succ k ih =>
    have hsum : d.lflag + 1 + Int32.ofNat k = d.lflag + Int32.ofNat (k + 1) := by
      have hone : Int32.ofNat 1 = 1 := rfl
      rw [Int32.ofNat_add, hone, Int32.add_assoc, Int32.add_comm 1]
    have hpos : pos + (k + 1) = pos + 1 + k := by omega
    rw [List.replicate_succ] at h
    rw [reswitch_long h.head, ih h.tail, hsum, hpos]

/-- A byte that no number goes on with. -/
def Stops (c : UInt8) : Prop := c < '0'.toUInt8 ∨ '9'.toUInt8 < c

theorem digit_value {k v : Nat} (hk : k < 10) :
    Int32.ofNat v * 10 + ucharToInt (digits.getD k 0) - ucharToInt '0'.toUInt8 =
      Int32.ofNat (v * 10 + k) := by
  have hdigit : ucharToInt (digits.getD k 0) = Int32.ofNat k + ucharToInt '0'.toUInt8 := by
    interval_cases k <;> rfl
  have hten : (10 : Int32) = Int32.ofNat 10 := rfl
  rw [hdigit, ← Int32.add_assoc, Int32.add_sub_cancel, hten, Int32.ofNat_add, Int32.ofNat_mul]

theorem readPrecision_value (ds : List Nat) (hds : ∀ d ∈ ds, d < 10) {k : Nat} (hk : k < 10)
    (v : Nat) {stop : UInt8} (hstop : Stops stop)
    (h : StandsIn fmt pos (ds.map (fun d => digits.getD d 0) ++ [stop])) :
    readPrecision fmt (Int32.ofNat v) (digits.getD k 0) pos =
      .ok (Int32.ofNat (ds.foldl (fun v d => v * 10 + d) (v * 10 + k)), pos + ds.length) := by
  induction ds generalizing k v pos with
  | nil =>
    have hread : fmt.byteAt pos = some stop := h.head
    have hend : stop < '0'.toUInt8 ∨ '9'.toUInt8 < stop := hstop
    rw [readPrecision, digit_value hk]
    split
    · next hnone =>
      rw [hread] at hnone
      cases hnone
    · next c hsome =>
      rw [hread] at hsome
      obtain rfl := Option.some.inj hsome
      rw [if_pos hend]
      rfl
  | cons d ds ih =>
    have hd := hds d List.mem_cons_self
    have hread : fmt.byteAt pos = some (digits.getD d 0) := h.head
    have hpos : pos + (d :: ds).length = pos + 1 + ds.length := by
      rw [List.length_cons]
      omega
    rw [readPrecision, digit_value hk]
    split
    · next hnone =>
      rw [hread] at hnone
      cases hnone
    · next c hsome =>
      rw [hread] at hsome
      obtain rfl := Option.some.inj hsome
      rw [if_neg (decimal_digit hd).1, hpos]
      exact ih (fun e he => hds e (List.mem_cons_of_mem d he)) hd (v * 10 + k) h.tail

theorem reswitch_value {k : Nat} (hpos : k ≠ 0) (ds : List Nat) (hds : ∀ d ∈ k :: ds, d < 10)
    {stop : UInt8} (hstop : Stops stop)
    (h : StandsIn fmt pos ((k :: ds).map (fun d => digits.getD d 0) ++ [stop])) :
    reswitch fmt args d pos ap = reswitch fmt args
      ({ d with precision := Int32.ofNat (decimalValue (k :: ds)) } : Directive).processPrecision
      (pos + (k :: ds).length) ap := by
  have hk := hds k List.mem_cons_self
  have hlength : pos + (k :: ds).length = pos + 1 + ds.length := by
    rw [List.length_cons]
    omega
  have hnumber := readPrecision_value ds (fun e he => hds e (List.mem_cons_of_mem k he)) hk 0
    hstop h.tail
  rw [reswitch_number h.head ((decimal_digit hk).2 hpos) hnumber, hlength]
  rfl

theorem decimalValue_pos {k : Nat} (hpos : k ≠ 0) (ds : List Nat) :
    decimalValue (k :: ds) ≠ 0 := by
  have hgrows : ∀ (ds : List Nat) (v : Nat), 0 < v → 0 < ds.foldl (fun v d => v * 10 + d) v := by
    intro ds
    induction ds with
    | nil => exact fun v hv => hv
    | cons d ds ih => exact fun v hv => ih (v * 10 + d) (by omega)
  have hfirst : 0 < 0 * 10 + k := by omega
  exact (hgrows ds (0 * 10 + k) hfirst).ne'

theorem decimalValue_zero (ds : List Nat) : decimalValue (0 :: ds) = decimalValue ds := rfl

/-- Behind the dot the zeros in front are flags again, and only a number that starts with
another digit is taken for the precision. -/
theorem reswitch_precision (ds : List Nat) (hds : ∀ d ∈ ds, d < 10) (hwidth : ¬ d.width < 0)
    (hnone : d.precision = -1) {stop : UInt8} (hstop : Stops stop)
    (h : StandsIn fmt pos (ds.map (fun d => digits.getD d 0) ++ [stop])) :
    reswitch fmt args d pos ap = reswitch fmt args
      { d with
        padc := if ds.head? = some 0 then '0'.toUInt8 else d.padc
        precision := if decimalValue ds = 0 then -1 else Int32.ofNat (decimalValue ds) }
      (pos + ds.length) ap := by
  induction ds generalizing d pos with
  | nil =>
    obtain ⟨padc, width, precision, lflag, altflag⟩ := d
    obtain rfl : precision = -1 := hnone
    rfl
  | cons k ds ih =>
    have hlength : pos + (k :: ds).length = pos + 1 + ds.length := by
      rw [List.length_cons]
      omega
    by_cases hk : k = 0
    · subst hk
      have hlater := ih (d := { d with padc := '0'.toUInt8 })
        (fun e he => hds e (List.mem_cons_of_mem 0 he)) hwidth hnone h.tail
      rw [reswitch_zero h.head, hlater, hlength, decimalValue_zero]
      simp
    · have hfirst : ¬ (k :: ds).head? = some 0 := by simpa using hk
      rw [reswitch_value hk ds hds hstop h, if_neg hfirst, if_neg (decimalValue_pos hk ds)]
      unfold Directive.processPrecision
      rw [if_neg hwidth]

theorem reswitch_width {n : Nat} (hn : 0 < n) (hwidth : d.width = -1) {stop : UInt8}
    (hstop : Stops stop) (h : StandsIn fmt pos (digitText 10 n ++ [stop])) :
    reswitch fmt args d pos ap = reswitch fmt args
      { d with width := Int32.ofNat n, precision := -1 } (pos + (digitText 10 n).length) ap := by
  obtain ⟨k, ds, hnumeral, hk⟩ := numeral_head_pos (b := 10) hn.ne'
  have hvalue : decimalValue (k :: ds) = n := by
    rw [← hnumeral]
    exact foldl_numeral 10 n
  have hds : ∀ d ∈ k :: ds, d < 10 := fun d hd =>
    lt_of_mem_numeral (by omega) (hnumeral ▸ hd)
  have hneg : d.width < 0 := by
    rw [hwidth]
    decide
  unfold digitText at h ⊢
  rw [hnumeral] at h ⊢
  rw [reswitch_value hk ds hds hstop h, hvalue, List.length_map]
  unfold Directive.processPrecision
  rw [if_pos hneg]

end

namespace Spelling

variable {fmt : CString} {args : Args} {pos ap : Nat}

theorem letter_not_modifier (w : Spelling) : ¬ Modifier w.letter := by
  have hletters : ∀ c, Recognized c → ¬ Modifier c := by
    intro c hc
    rcases hc with rfl | rfl | rfl | rfl | rfl | rfl | rfl | rfl | rfl <;>
      (unfold Modifier; decide)
  exact hletters w.letter w.known

theorem letter_stops (w : Spelling) : Stops w.letter := by
  by_contra hdigit
  exact w.letter_not_modifier (Modifier.of_digit hdigit)

/-- What stands behind the digits of a precision. -/
theorem end_stops (w : Spelling) :
    ∃ stop rest, List.replicate w.longs 'l'.toUInt8 ++ [w.letter] = stop :: rest ∧ Stops stop := by
  cases w.longs with
  | zero => exact ⟨w.letter, [], rfl, w.letter_stops⟩
  | succ k => exact ⟨'l'.toUInt8, _, rfl, .inr (by decide)⟩

/-- What stands behind the digits of a width. -/
theorem tail_stops (w : Spelling) : ∃ stop rest, w.tailText = stop :: rest ∧ Stops stop := by
  unfold tailText
  cases w.precision with
  | none => exact w.end_stops
  | some ds => exact ⟨'.'.toUInt8, _, rfl, .inl (by decide)⟩

theorem reswitch_end (w : Spelling) (d : Directive)
    (h : StandsIn fmt pos (List.replicate w.longs 'l'.toUInt8 ++ [w.letter])) :
    reswitch fmt args d pos ap =
      .ok (w.letter, { d with lflag := d.lflag + Int32.ofNat w.longs }, pos + w.longs + 1, ap) := by
  have hletter := h.right.head
  rw [List.length_replicate] at hletter
  rw [reswitch_longs w.longs h.left]
  exact reswitch_letter hletter w.letter_not_modifier args _ ap

theorem reswitch_tail (w : Spelling) {d : Directive} (hprecision : d.precision = -1)
    (h : StandsIn fmt pos w.tailText) :
    reswitch fmt args d pos ap =
      .ok (w.letter, { precisionParsed d w.precision with lflag := d.lflag + Int32.ofNat w.longs },
        pos + w.tailText.length, ap) := by
  obtain ⟨stop, rest, hend, hstop⟩ := w.end_stops
  unfold tailText at h ⊢
  rw [List.length_append, List.length_append, List.length_replicate, List.length_singleton]
  cases hds : w.precision with
  | none =>
    rw [hds] at h
    have hlength : pos + ((precisionText none).length + (w.longs + 1)) = pos + w.longs + 1 := by
      change pos + (0 + (w.longs + 1)) = _
      omega
    rw [reswitch_end w d h, hlength]
    rfl
  | some ds =>
    rw [hds] at h
    have hlength : pos + ((precisionText (some ds)).length + (w.longs + 1)) =
        pos + 1 + ds.length + w.longs + 1 := by
      unfold precisionText
      rw [List.length_cons, List.length_map]
      omega
    have htail := h.tail
    have hdigits := (w.precision_digits ds hds).1
    have hafter := htail.right
    rw [List.length_map] at hafter
    have hdot : (if d.width < 0 then { d with width := 0 } else d) =
        { d with width := if d.width < 0 then 0 else d.width } := by
      split <;> rfl
    have hwidth : ¬ (if d.width < 0 then (0 : Int32) else d.width) < 0 := by
      split
      · decide
      · next h => exact h
    rw [hend] at htail
    rw [reswitch_dot h.head, hdot, reswitch_precision
      (d := { d with width := if d.width < 0 then 0 else d.width })
      ds hdigits hwidth hprecision hstop htail.to_stop, reswitch_end w _ hafter, hlength]
    rfl

/-- The formatter reaches the letter of a directive with `parsed`, and goes on behind it. -/
theorem reswitch_text (w : Spelling) (h : StandsIn fmt pos w.text) :
    reswitch fmt args {} pos ap = .ok (w.letter, w.parsed, pos + w.text.length, ap) := by
  obtain ⟨stop, rest, htail, hstop⟩ := w.tail_stops
  have hafter := h.right
  rw [List.length_map] at hafter
  have hzero : (0 : Int32) + Int32.ofNat w.longs = Int32.ofNat w.longs := Int32.zero_add _
  rw [reswitch_flags w.flags h.left]
  unfold text parsed
  rw [List.length_append, List.length_append, List.length_map]
  cases hwidth : w.width with
  | none =>
    rw [hwidth] at hafter
    have hlength : pos + (w.flags.length + ((widthText none).length + w.tailText.length)) =
        pos + w.flags.length + w.tailText.length := by
      change pos + (w.flags.length + (0 + w.tailText.length)) = _
      omega
    rw [w.reswitch_tail rfl hafter, hlength]
    dsimp only
    rw [hzero, Bool.false_or]
  | some n =>
    rw [hwidth] at hafter
    have hlength : pos + (w.flags.length + ((widthText (some n)).length + w.tailText.length)) =
        pos + w.flags.length + (digitText 10 n).length + w.tailText.length := by
      change pos + (w.flags.length + ((digitText 10 n).length + w.tailText.length)) = _
      omega
    have hrest := hafter.right
    change StandsIn fmt (pos + w.flags.length + (digitText 10 n).length) w.tailText at hrest
    rw [htail] at hafter
    rw [reswitch_width (w.width_pos n hwidth).1 rfl hstop hafter.to_stop,
      w.reswitch_tail rfl hrest, hlength]
    dsimp only
    rw [hzero, Bool.false_or]

/-- What `vprintfmt` makes of the directive whose `%` is at `pos` is as it is written, and it
goes on right behind the letter. -/
def Understood (w : Spelling) (fmt : CString) (args : Args) (pos ap : Nat) : Prop :=
  ∃ d, reswitch fmt args {} (pos + 1) ap = .ok (w.letter, d, pos + 1 + w.text.length, ap) ∧
    w.AsWritten d

/-- The precision is not zero, and a zero in front of it is no new padding. -/
def PlainPrecision (w : Spelling) : Prop :=
  ∀ ds ∈ w.precision, decimalValue ds ≠ 0 ∧
    (ds.head? = some 0 → padding ' '.toUInt8 w.flags = '0'.toUInt8)

theorem ofNat_eq_iff (n : Nat) : (Int32.ofNat n).toInt = n ↔ n < 2 ^ 31 := by
  constructor
  · intro h
    have hlt := (Int32.ofNat n).toInt_lt
    omega
  · exact Int32.toInt_ofNat_of_lt

theorem parsed_padc_iff (w : Spelling) :
    w.parsed.padc = padding ' '.toUInt8 w.flags ↔ ∀ ds ∈ w.precision, ds.head? = some 0 →
      padding ' '.toUInt8 w.flags = '0'.toUInt8 := by
  unfold parsed
  cases w.precision with
  | none => exact iff_of_true rfl (by simp)
  | some ds =>
    change (if ds.head? = some 0 then '0'.toUInt8 else padding ' '.toUInt8 w.flags) = _ ↔ _
    by_cases hzero : ds.head? = some 0
    · rw [if_pos hzero]
      simp [hzero, eq_comm]
    · rw [if_neg hzero]
      simp [hzero]

theorem parsed_width (w : Spelling) : match w.width with
    | none => w.parsed.width ≤ 0
    | some n => w.parsed.width.toInt = n := by
  have hnone : (-1 : Int32) ≤ 0 := by decide
  cases hwidth : w.width with
  | none =>
    unfold parsed
    rw [hwidth]
    cases w.precision with
    | none => exact hnone
    | some ds => exact Int32.le_refl 0
  | some n =>
    have hn := (w.width_pos n hwidth).2
    have hneg : ¬ Int32.ofNat n < 0 := ofNat_not_neg hn
    unfold parsed
    rw [hwidth]
    cases w.precision with
    | none => exact Int32.toInt_ofNat_of_lt hn
    | some ds =>
      change (if Int32.ofNat n < 0 then (0 : Int32) else Int32.ofNat n).toInt = n
      rw [if_neg hneg]
      exact Int32.toInt_ofNat_of_lt hn

theorem parsed_precision_iff (w : Spelling) :
    (match w.precision with
    | none => w.parsed.precision = -1
    | some ds => w.parsed.precision.toInt = decimalValue ds) ↔
      ∀ ds ∈ w.precision, decimalValue ds ≠ 0 := by
  cases hprecision : w.precision with
  | none =>
    unfold parsed
    rw [hprecision]
    exact iff_of_true rfl (by simp)
  | some ds =>
    have hvalue := (w.precision_digits ds hprecision).2
    have hparsed : w.parsed.precision =
        if decimalValue ds = 0 then -1 else Int32.ofNat (decimalValue ds) := by
      unfold parsed
      rw [hprecision]
      rfl
    have hone : (-1 : Int32).toInt = -1 := rfl
    dsimp only
    rw [hparsed]
    by_cases hzero : decimalValue ds = 0
    · rw [if_pos hzero, hzero, hone]
      exact iff_of_false (by decide) fun h => h ds rfl hzero
    · rw [if_neg hzero]
      refine iff_of_true (Int32.toInt_ofNat_of_lt hvalue) ?_
      rintro ds' hds
      obtain rfl := Option.some.inj hds
      exact hzero

theorem parsed_asWritten_iff (w : Spelling) :
    w.AsWritten w.parsed ↔ w.PlainPrecision ∧ w.longs < 2 ^ 31 := by
  have hprecision := w.parsed_precision_iff
  have hpadc := w.parsed_padc_iff
  constructor
  · intro h
    refine ⟨fun ds hds => ⟨hprecision.mp h.precision ds hds, hpadc.mp h.padc ds hds⟩, ?_⟩
    exact (ofNat_eq_iff _).mp h.lflag
  · rintro ⟨hplain, hlongs⟩
    have halt : w.parsed.altflag = decide (Flag.alternate ∈ w.flags) := by
      unfold parsed
      cases w.precision <;> rfl
    exact ⟨hpadc.mpr fun ds hds => (hplain ds hds).2, halt, w.parsed_width,
      hprecision.mpr fun ds hds => (hplain ds hds).1, (ofNat_eq_iff _).mpr hlongs⟩

theorem understood_parsed {w : Spelling} (h : StandsIn fmt pos ('%'.toUInt8 :: w.text)) :
    w.Understood fmt args pos ap ↔ w.AsWritten w.parsed := by
  have hparsed : reswitch fmt args {} (pos + 1) ap =
      .ok (w.letter, w.parsed, pos + 1 + w.text.length, ap) := w.reswitch_text h.tail
  constructor
  · rintro ⟨d, hrun, hwritten⟩
    rw [hparsed] at hrun
    obtain rfl : w.parsed = d := by simpa using hrun
    exact hwritten
  · exact fun hwritten => ⟨w.parsed, hparsed, hwritten⟩

/-- A directive is understood as it is written exactly when it has no precision, or one that
is not zero and does not start with a zero that the flags did not ask for. The count of the
`l`s has to fit into an `int`. -/
theorem understood_iff (w : Spelling) (fmt : CString) (args : Args) (pos ap : Nat)
    (h : StandsIn fmt pos ('%'.toUInt8 :: w.text)) :
    w.Understood fmt args pos ap ↔ w.PlainPrecision ∧ w.longs < 2 ^ 31 :=
  (understood_parsed h).trans w.parsed_asWritten_iff

theorem standsIn_bytes {text : List UInt8} (h : fmt.bytes = text) : StandsIn fmt 0 text := by
  subst h
  intro i c hc
  have hlt := (List.getElem?_eq_some_iff.mp hc).1
  rw [Nat.zero_add, CString.byteAt_of_lt hlt, ← hc, List.getElem?_eq_getElem hlt]
  rfl

/-- `-12.3ld` -/
def leftLong : Spelling where
  flags := [.minus]
  width := some 12
  precision := some [3]
  longs := 1
  letter := 'd'.toUInt8
  width_pos := by simp
  precision_digits := by
    rintro ds hds
    obtain rfl := Option.some.inj hds
    decide
  known := by
    unfold Recognized
    decide

theorem understood_iff_left :
    leftLong.Understood (.lit "%-12.3ld") (fun _ => ⟨0, .lit ""⟩) 0 0 := by
  refine (leftLong.understood_iff _ _ 0 0 (standsIn_bytes (by decide))).mpr ⟨?_, by decide⟩
  rintro ds hds
  obtain rfl := Option.some.inj hds
  exact ⟨by decide, by decide⟩

/-- `.0s` -/
def emptyString : Spelling where
  flags := []
  width := none
  precision := some [0]
  longs := 0
  letter := 's'.toUInt8
  width_pos := by simp
  precision_digits := by
    rintro ds hds
    obtain rfl := Option.some.inj hds
    decide
  known := by
    unfold Recognized
    decide

/-- The precision 0 is taken for the flag, and there is no precision. -/
theorem zero_precision_lost :
    ¬ emptyString.Understood (.lit "%.0s") (fun _ => ⟨0, .lit ""⟩) 0 0 := by
  rw [understood_parsed (standsIn_bytes (by decide)), parsed_asWritten_iff]
  rintro ⟨hplain, -⟩
  exact (hplain [0] rfl).1 rfl

end Spelling

end Jos
