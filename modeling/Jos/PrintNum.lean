import Jos.Strtol
import Jos.Printf

/-!
What the number formats print, and that `strtol` reads it back. The printer
recurses down to the most significant digit, so the padding comes first.
-/

namespace Jos

theorem sub_one_sub (width : Int32) (k : Nat) :
    width - 1 - Int32.ofNat k = width - Int32.ofNat (k + 1) := by
  have hone : Int32.ofNat 1 = 1 := rfl
  rw [Int32.ofNat_add, hone, Int32.sub_sub, Int32.add_comm]

theorem printnum_text (num : UInt64) (base : Base) (width : Int32) (padc : UInt8) :
    printnum num base width padc =
      putPad (width - Int32.ofNat (numeral base.val.toNat num.toNat).length) padc ++
        (digitText base.val.toNat num.toNat).map charToInt := by
  induction hnum : num.toNat using Nat.strong_induction_on generalizing num width with
  | _ n ih =>
    subst hnum
    have hbase : 1 < base.val.toNat := by cases base <;> decide
    have hmod : (num % base.val).toNat = num.toNat % base.val.toNat := UInt64.toNat_mod _ _
    rw [printnum, hmod]
    split
    · next hle =>
      have hge : base.val.toNat ≤ num.toNat := UInt64.le_iff_toNat_le.mp hle
      have hdiv : (num / base.val).toNat = num.toNat / base.val.toNat := UInt64.toNat_div _ _
      have hlt : (num / base.val).toNat < num.toNat := by
        rw [hdiv]
        exact Nat.div_lt_self (by omega) hbase
      have hinner := ih _ hlt (num / base.val) (width - 1) rfl
      rw [hdiv, sub_one_sub] at hinner
      rw [hinner]
      unfold digitText
      rw [numeral_of_le hbase hge, List.length_append, List.length_singleton]
      simp
    · next hlt =>
      have hsmall : num.toNat < base.val.toNat :=
        lt_of_not_ge (fun h => hlt (UInt64.le_iff_toNat_le.mpr h))
      unfold digitText
      rw [numeral_of_lt hsmall, Nat.mod_eq_of_lt hsmall]
      rfl

/-- A number takes at most 64 digits, so a directive without a width pads
nothing. -/
theorem putPad_no_width (num : UInt64) (base : Base) (padc : UInt8) :
    putPad (-1 - Int32.ofNat (numeral base.val.toNat num.toNat).length) padc = [] := by
  have hbase : 1 < base.val.toNat := by cases base <;> decide
  have hlt := num.toNat_lt
  have hpow : num.toNat < base.val.toNat ^ 64 :=
    lt_of_lt_of_le hlt (Nat.pow_le_pow_left hbase 64)
  have hlength := numeral_length_le hbase (by omega) hpow
  have hone : (-1 : Int32).toInt = -1 := rfl
  have hzero : (0 : Int32).toInt = 0 := rfl
  rw [putPad_eq_nil_iff, Int32.le_iff_toInt_le, Int32.toInt_sub, hone, hzero,
    Int32.toInt_ofNat_of_lt (by omega), Int.bmod_eq_of_le (by omega) (by omega)]
  omega

/-- A directive whose padding is blanks, if it pads at all. -/
def Directive.Blank (d : Directive) : Prop :=
  d.padc = ' '.toUInt8 ∨ d.width = -1

theorem printnum_blank (num : UInt64) (base : Base) {d : Directive} (hd : d.Blank) :
    ∃ k, printnum num base d.width d.padc =
      (List.replicate k ' '.toUInt8 ++ digitText base.val.toNat num.toNat).map charToInt := by
  rw [printnum_text]
  rcases hd with hpadc | hwidth
  · let width := d.width - Int32.ofNat (numeral base.val.toNat num.toNat).length
    refine ⟨width.toNatClampNeg, ?_⟩
    rw [List.map_append, List.map_replicate, hpadc]
    rfl
  · refine ⟨0, ?_⟩
    rw [hwidth, putPad_no_width]
    rfl

theorem printnum_default (num : UInt64) (base : Base) (padc : UInt8) :
    printnum num base (-1) padc = (digitText base.val.toNat num.toNat).map charToInt := by
  rw [printnum_text, putPad_no_width]
  rfl

/-- The format is a `%`, the bytes of `mods`, and one letter. -/
def OneDirective (fmt : CString) (mods : List UInt8) (letter : UInt8) : Prop :=
  fmt.bytes = '%'.toUInt8 :: (mods ++ [letter])

section

variable {fmt : CString} {mods : List UInt8} {letter : UInt8}

theorem OneDirective.percent (h : OneDirective fmt mods letter) :
    fmt.byteAt 0 = some '%'.toUInt8 := by
  unfold CString.byteAt
  rw [h]
  rfl

theorem OneDirective.letter_at (h : OneDirective fmt mods letter) :
    fmt.byteAt (mods.length + 1) = some letter := by
  unfold CString.byteAt
  rw [h]
  simp

theorem OneDirective.mod_at (h : OneDirective fmt mods letter) {i : Nat} {c : UInt8}
    (hc : mods[i]? = some c) : fmt.byteAt (i + 1) = some c := by
  have hlt := (List.getElem?_eq_some_iff.mp hc).1
  unfold CString.byteAt
  rw [h, List.cons_append, List.getElem?_cons_succ, List.append_assoc,
    List.getElem?_append_left hlt]
  exact hc

theorem OneDirective.nul (h : OneDirective fmt mods letter) :
    fmt.byteAt (mods.length + 2) = some 0 := by
  have hlength : fmt.bytes.length = mods.length + 2 := by
    rw [h]
    simp
  rw [← hlength]
  exact CString.byteAt_length fmt

/-- Such a format prints what its one conversion shows. -/
theorem OneDirective.formatted (h : OneDirective fmt mods letter) {args : Args} {d : Directive}
    {shown : List Int32} {ap next : Nat}
    (hparse : reswitch fmt args {} 1 0 = .ok (letter, d, mods.length + 2, ap))
    (hconvert : convert letter d args ap = .put shown next) :
    Jos.formatted fmt args = .ok shown := by
  have hend : Prints 1 fmt args (mods.length + 2) next [] := Prints.nul h.nul
  have hput := Prints.put h.percent hparse hend hconvert
  rw [List.append_nil] at hput
  exact hput _ (by omega)

end

/-- The digits of a width are read up to the byte behind them. -/
theorem readPrecision_digits {fmt : CString} {stop : UInt8} (ds : List UInt8) (pos : Nat)
    (precision : Int32) (ch : UInt8)
    (hds : ∀ c ∈ ds, ¬ (c < '0'.toUInt8 ∨ '9'.toUInt8 < c))
    (hread : ∀ i c, ds[i]? = some c → fmt.byteAt (pos + i) = some c)
    (hend : fmt.byteAt (pos + ds.length) = some stop)
    (hstop : stop < '0'.toUInt8 ∨ '9'.toUInt8 < stop) :
    ∃ n, readPrecision fmt precision ch pos = .ok (n, pos + ds.length) := by
  induction ds generalizing pos precision ch with
  | nil =>
    rw [List.length_nil, Nat.add_zero] at hend ⊢
    refine ⟨precision * 10 + ucharToInt ch - ucharToInt '0'.toUInt8, ?_⟩
    rw [readPrecision]
    split
    · next hnone =>
      rw [hend] at hnone
      cases hnone
    · next c hsome =>
      rw [hend] at hsome
      obtain rfl := Option.some.inj hsome
      rw [if_pos hstop]
  | cons d ds ih =>
    have hd := hread 0 d rfl
    rw [Nat.add_zero] at hd
    have hnext : pos + (d :: ds).length = pos + 1 + ds.length := by
      rw [List.length_cons]
      omega
    rw [hnext] at hend ⊢
    obtain ⟨n, hrest⟩ := ih (pos + 1)
      (precision * 10 + ucharToInt ch - ucharToInt '0'.toUInt8) d
      (fun c hc => hds c (List.mem_cons_of_mem d hc))
      (fun i c hc => by
        have hpos : pos + 1 + i = pos + (i + 1) := by omega
        rw [hpos]
        exact hread (i + 1) c hc) hend
    refine ⟨n, ?_⟩
    rw [readPrecision]
    split
    · next hnone =>
      rw [hd] at hnone
      cases hnone
    · next c hsome =>
      rw [hd] at hsome
      obtain rfl := Option.some.inj hsome
      rw [if_neg (hds d List.mem_cons_self)]
      exact hrest

section

variable {fmt : CString} {args : Args} {d : Directive} {pos ap : Nat}

theorem reswitch_zero (hread : fmt.byteAt pos = some '0'.toUInt8) :
    reswitch fmt args d pos ap =
      reswitch fmt args { d with padc := '0'.toUInt8 } (pos + 1) ap := by
  have hflag : '0'.toUInt8 ≠ '-'.toUInt8 := by decide
  rw [reswitch]
  split
  · next hnone =>
    rw [hread] at hnone
    cases hnone
  · next c hsome =>
    rw [hread] at hsome
    obtain rfl := Option.some.inj hsome
    rw [if_neg hflag, if_pos rfl]

theorem reswitch_number {c : UInt8} {n : Int32} {pos' : Nat}
    (hread : fmt.byteAt pos = some c) (hdigit : '1'.toUInt8 ≤ c ∧ c ≤ '9'.toUInt8)
    (hnumber : readPrecision fmt 0 c (pos + 1) = .ok (n, pos')) :
    reswitch fmt args d pos ap =
      reswitch fmt args ({ d with precision := n } : Directive).processPrecision pos' ap := by
  have hflag : c ≠ '-'.toUInt8 := by
    rintro rfl
    revert hdigit
    decide
  have hzero : c ≠ '0'.toUInt8 := by
    rintro rfl
    revert hdigit
    decide
  rw [reswitch]
  split
  · next hnone =>
    rw [hread] at hnone
    cases hnone
  · next c' hsome =>
    rw [hread] at hsome
    obtain rfl := Option.some.inj hsome
    rw [if_neg hflag, if_neg hzero, if_pos hdigit]
    split
    · next e herror =>
      rw [hnumber] at herror
      cases herror
    · next n' pos'' hok =>
      rw [hnumber] at hok
      obtain ⟨rfl, rfl⟩ := Prod.mk.inj (Except.ok.inj hok)
      rfl

end

theorem decimal_digit {n : Nat} (h : n < 10) :
    ¬ (digits.getD n 0 < '0'.toUInt8 ∨ '9'.toUInt8 < digits.getD n 0) ∧
      (n ≠ 0 → '1'.toUInt8 ≤ digits.getD n 0 ∧ digits.getD n 0 ≤ '9'.toUInt8) := by
  interval_cases n <;> decide

/-- A width in decimal, 0 included, leads to the letter with blanks for
padding; `"%0d"` sets another padding, but no width. -/
theorem OneDirective.reswitch_width {fmt : CString} {letter : UInt8} {w : Nat}
    (h : OneDirective fmt (digitText 10 w) letter) (hletter : ¬ Modifier letter) (args : Args) :
    ∃ d : Directive, d.Blank ∧ d.lflag = 0 ∧
      reswitch fmt args {} 1 0 = .ok (letter, d, (digitText 10 w).length + 2, 0) := by
  have hlast := h.letter_at
  by_cases hw : w = 0
  · subst hw
    rw [digitText_zero] at h hlast ⊢
    have hzero : fmt.byteAt 1 = some '0'.toUInt8 := h.mod_at rfl
    refine ⟨{ padc := '0'.toUInt8 }, .inr rfl, rfl, ?_⟩
    rw [reswitch_zero hzero]
    exact reswitch_letter hlast hletter args _ 0
  · obtain ⟨n, ns, hnumeral, hn⟩ := numeral_head_pos (b := 10) hw
    have hlt : ∀ m ∈ n :: ns, m < 10 :=
      fun m hm => lt_of_mem_numeral (by omega) (hnumeral ▸ hm)
    let ds := ns.map (fun m => digits.getD m 0)
    have htext : digitText 10 w = digits.getD n 0 :: ds := by
      unfold digitText
      rw [hnumeral, List.map_cons]
    rw [htext] at h hlast ⊢
    have hds : ∀ c ∈ ds, ¬ (c < '0'.toUInt8 ∨ '9'.toUInt8 < c) := by
      intro c hc
      obtain ⟨m, hm, rfl⟩ := List.mem_map.mp hc
      exact (decimal_digit (hlt m (List.mem_cons_of_mem n hm))).1
    have hread : ∀ i c, ds[i]? = some c → fmt.byteAt (2 + i) = some c := by
      intro i c hc
      have hat := h.mod_at (i := i + 1) hc
      have hpos : i + 1 + 1 = 2 + i := by omega
      rwa [hpos] at hat
    have hend : fmt.byteAt (2 + ds.length) = some letter := by
      have hpos : (digits.getD n 0 :: ds).length + 1 = 2 + ds.length := by
        rw [List.length_cons]
        omega
      rwa [hpos] at hlast
    have hstop : letter < '0'.toUInt8 ∨ '9'.toUInt8 < letter := by
      by_contra hdigit
      exact hletter (Modifier.of_digit hdigit)
    obtain ⟨width, hnumber⟩ :=
      readPrecision_digits ds 2 0 (digits.getD n 0) hds hread hend hstop
    have hhead : '1'.toUInt8 ≤ digits.getD n 0 ∧ digits.getD n 0 ≤ '9'.toUInt8 :=
      (decimal_digit (hlt n List.mem_cons_self)).2 hn
    refine ⟨{ width := width }, .inl rfl, rfl, ?_⟩
    rw [reswitch_number (h.mod_at rfl) hhead hnumber]
    have hbehind : (digits.getD n 0 :: ds).length + 2 = 2 + ds.length + 1 := by
      rw [List.length_cons]
      omega
    rw [hbehind]
    exact reswitch_letter hend hletter args _ 0

section

variable {b n : Nat} {text : CString}

theorem digit_nonzero (hb : 1 < b) (hbound : b ≤ 16) {c : UInt8} (hc : c ∈ digitText b n) :
    c ≠ 0 := by
  obtain ⟨d, hd, rfl⟩ := digit_of_text hb hbound hc
  exact (digit_ne hd).1

theorem strtol_numeral (hb : 1 < b) (hbound : b ≤ 16) {k : Nat}
    (htext : text.bytes = List.replicate k ' '.toUInt8 ++ digitText b n) :
    strtol text (Int32.ofNat b) = (Int32.ofNat n, []) := by
  unfold strtol
  rw [htext, signOf_digits hb hbound]
  dsimp only
  rw [basePrefix_given hb hbound]
  dsimp only
  rw [accumulate_numeral hb hbound]
  rfl

theorem strtol_decimal {k : Nat}
    (htext : text.bytes = List.replicate k ' '.toUInt8 ++ digitText 10 n) :
    strtol text 0 = (Int32.ofNat n, []) := by
  unfold strtol
  rw [htext, signOf_digits (by omega) (by omega)]
  dsimp only
  rw [basePrefix_decimal]
  rfl

theorem signOf_minus (s : List UInt8) :
    signOf (gobble ('-'.toUInt8 :: s)) = (true, s) := rfl

/-- The number is negated after it has wrapped. -/
theorem strtol_negative (htext : text.bytes = '-'.toUInt8 :: digitText 10 n) :
    strtol text 10 = (-Int32.ofNat n, []) ∧ strtol text 0 = (-Int32.ofNat n, []) := by
  unfold strtol
  rw [htext, signOf_minus]
  dsimp only
  have hten : (10 : Int32) = Int32.ofNat 10 := rfl
  constructor
  · rw [hten, basePrefix_given (by omega) (by omega)]
    dsimp only
    rw [accumulate_numeral (by omega) (by omega)]
    rfl
  · rw [basePrefix_decimal]
    rfl

theorem strtol_pointer {base : Int32} (hbase : base = 0 ∨ base = 16)
    (htext : text.bytes = '0'.toUInt8 :: 'x'.toUInt8 :: digitText 16 n) :
    strtol text base = (Int32.ofNat n, []) := by
  have hsign (s : List UInt8) : signOf (gobble ('0'.toUInt8 :: s)) = (false, '0'.toUInt8 :: s) :=
    rfl
  have hsixteen : (16 : Int32) = Int32.ofNat 16 := rfl
  unfold strtol
  rw [htext, hsign]
  dsimp only
  rw [basePrefix_pointer hbase]
  dsimp only
  rw [hsixteen, accumulate_numeral (by omega) (by omega)]
  rfl

end

/-- Printed by `fmt`, the word `x` makes a text that `strtol` reads to its end,
and what it reads is `x`. -/
def Reads (fmt : CString) (x : UInt32) (base : Int32) : Prop :=
  ∀ args : Args, (args 0).word = x → ∃ text : CString,
    formatted fmt args = .ok (text.bytes.map charToInt) ∧ strtol text base = (x.toInt32, [])

theorem ofNat_toNat (x : UInt32) : Int32.ofNat x.toNat = x.toInt32 := by
  rw [← UInt32.toInt32_ofNat', UInt32.ofNat_toNat]

/-- The text that `shown` is, from a proof that none of its characters is NUL. -/
theorem exists_text {k b n : Nat} (hb : 1 < b) (hbound : b ≤ 16) (lead : List UInt8)
    (hlead : ∀ c ∈ lead, c ≠ 0) :
    ∃ text : CString, text.bytes = lead ++ (List.replicate k ' '.toUInt8 ++ digitText b n) := by
  refine ⟨⟨lead ++ (List.replicate k ' '.toUInt8 ++ digitText b n), ?_⟩, rfl⟩
  intro c hc
  rcases List.mem_append.mp hc with hin | hrest
  · exact hlead c hin
  · rcases List.mem_append.mp hrest with hblank | hdigit
    · rw [List.eq_of_mem_replicate hblank]
      decide
    · exact digit_nonzero hb hbound hdigit

/-- The format holds one directive, which ends in `letter` and sets its width
and padding as `P` says. -/
def Shows (P : Directive → Prop) (fmt : CString) (letter : UInt8) : Prop :=
  ∀ args : Args, ∃ d : Directive, P d ∧ d.lflag = 0 ∧
    ∀ shown next, convert letter d args 0 = .put shown next → formatted fmt args = .ok shown

section

variable {fmt : CString} {letter : UInt8}

theorem OneDirective.shows_default (h : OneDirective fmt [] letter) (hletter : ¬ Modifier letter) :
    Shows (fun d => d.width = -1) fmt letter := by
  intro args
  refine ⟨{}, rfl, rfl, ?_⟩
  intro shown next hconvert
  exact h.formatted (reswitch_letter h.letter_at hletter args {} 0) hconvert

theorem Shows.blank (h : Shows (fun d => d.width = -1) fmt letter) :
    Shows Directive.Blank fmt letter := by
  intro args
  obtain ⟨d, hwidth, hlflag, hshown⟩ := h args
  exact ⟨d, .inr hwidth, hlflag, hshown⟩

theorem OneDirective.shows_width {w : Nat} (h : OneDirective fmt (digitText 10 w) letter)
    (hletter : ¬ Modifier letter) : Shows Directive.Blank fmt letter := by
  intro args
  obtain ⟨d, hblank, hlflag, hparse⟩ := h.reswitch_width hletter args
  exact ⟨d, hblank, hlflag, fun shown next hconvert => h.formatted hparse hconvert⟩

end

/-- The letters of the unsigned conversions, and their bases. -/
def Unsigned (letter : UInt8) (base : Base) : Prop :=
  (letter = 'u'.toUInt8 ∧ base = .decimal) ∨ (letter = 'o'.toUInt8 ∧ base = .octal) ∨
    (letter = 'x'.toUInt8 ∧ base = .hexadecimal)

section

variable {fmt : CString} {letter : UInt8} {base : Base} {d : Directive} {args : Args}

theorem convert_unsigned (hletter : Unsigned letter base) (hlflag : d.lflag = 0) :
    convert letter d args 0 =
      .put (printnum (args 0).word.toUInt64 base d.width d.padc) 1 := by
  have hlong : ¬ (2 : Int32) ≤ 0 := by decide
  have hnum : getuint args 0 d.lflag = ((args 0).word.toUInt64, 1) := by
    rw [hlflag]
    exact if_neg hlong
  rcases hletter with ⟨rfl, rfl⟩ | ⟨rfl, rfl⟩ | ⟨rfl, rfl⟩
  all_goals
    change Conversion.put (printnum (getuint args 0 d.lflag).1 _ d.width d.padc)
      (getuint args 0 d.lflag).2 = _
    rw [hnum]

theorem Base.bounds (base : Base) : 1 < base.val.toNat ∧ base.val.toNat ≤ 16 := by
  cases base <;> decide

/-- What an unsigned conversion prints is blanks and the digits of the word. -/
theorem Shows.unsigned_text (h : Shows Directive.Blank fmt letter)
    (hletter : Unsigned letter base) (args : Args) :
    ∃ k, ∃ text : CString, formatted fmt args = .ok (text.bytes.map charToInt) ∧
      text.bytes = List.replicate k ' '.toUInt8 ++
        digitText base.val.toNat (args 0).word.toNat := by
  obtain ⟨d, hblank, hlflag, hshown⟩ := h args
  obtain ⟨k, hprint⟩ := printnum_blank (args 0).word.toUInt64 base hblank
  obtain ⟨text, htext⟩ := exists_text (k := k) (n := (args 0).word.toNat)
    base.bounds.1 base.bounds.2 [] (by simp)
  refine ⟨k, text, ?_, htext⟩
  rw [hshown _ _ (convert_unsigned hletter hlflag), hprint, htext, UInt32.toNat_toUInt64]
  rfl

theorem Shows.reads_unsigned (h : Shows Directive.Blank fmt letter)
    (hletter : Unsigned letter base) (x : UInt32) :
    Reads fmt x (Int32.ofNat base.val.toNat) := by
  rintro args rfl
  obtain ⟨k, text, hout, htext⟩ := h.unsigned_text hletter args
  refine ⟨text, hout, ?_⟩
  rw [strtol_numeral base.bounds.1 base.bounds.2 htext, ofNat_toNat]

theorem Shows.reads_unsigned_zero (h : Shows Directive.Blank fmt 'u'.toUInt8) (x : UInt32) :
    Reads fmt x 0 := by
  rintro args rfl
  obtain ⟨k, text, hout, htext⟩ := h.unsigned_text (.inl ⟨rfl, rfl⟩) args
  refine ⟨text, hout, ?_⟩
  rw [strtol_decimal htext, ofNat_toNat]

end

section

variable {fmt : CString} {d : Directive} {args : Args} {base : Int32}

theorem convert_pointer (d : Directive) (args : Args) :
    convert 'p'.toUInt8 d args 0 = .put (charToInt '0'.toUInt8 :: charToInt 'x'.toUInt8 ::
      printnum (args 0).word.toUInt64 .hexadecimal d.width d.padc) 1 := rfl

theorem Shows.reads_pointer (h : Shows (fun d => d.width = -1) fmt 'p'.toUInt8)
    (hbase : base = 0 ∨ base = 16) (x : UInt32) : Reads fmt x base := by
  rintro args rfl
  obtain ⟨d, hwidth, -, hshown⟩ := h args
  have hlead : ∀ c ∈ ['0'.toUInt8, 'x'.toUInt8], c ≠ 0 := by
    intro c hc
    rcases List.mem_pair.mp hc with rfl | rfl <;> decide
  obtain ⟨text, htext⟩ := exists_text (b := 16) (k := 0) (n := (args 0).word.toNat)
    (by omega) (by omega) _ hlead
  refine ⟨text, ?_, ?_⟩
  · rw [hshown _ _ (convert_pointer d args), htext]
    change d.width = -1 at hwidth
    rw [hwidth, printnum_default, UInt32.toNat_toUInt64]
    rfl
  · rw [strtol_pointer hbase htext, ofNat_toNat]

theorem convert_signed (args : Args) (hlflag : d.lflag = 0) :
    convert 'd'.toUInt8 d args 0 =
      if (args 0).word.toInt32.toInt64 < 0 then
        .put (charToInt '-'.toUInt8 ::
          printnum (-(args 0).word.toInt32.toInt64).toUInt64 .decimal d.width d.padc) 1
      else .put (printnum (args 0).word.toInt32.toInt64.toUInt64 .decimal d.width d.padc) 1 := by
  have hlong : ¬ (2 : Int32) ≤ 0 := by decide
  have hnum : getint args 0 d.lflag = ((args 0).word.toInt32.toInt64, 1) := by
    rw [hlflag]
    exact if_neg hlong
  change (if (getint args 0 d.lflag).1 < 0 then
      Conversion.put (_ :: printnum (-(getint args 0 d.lflag).1).toUInt64 _ d.width d.padc)
        (getint args 0 d.lflag).2
    else Conversion.put (printnum (getint args 0 d.lflag).1.toUInt64 _ d.width d.padc)
      (getint args 0 d.lflag).2) = _
  rw [hnum]

theorem long_neg_iff (x : UInt32) : x.toInt32.toInt64 < 0 ↔ x.toInt32 < 0 := by
  rw [Int64.lt_iff_toInt_lt, Int32.lt_iff_toInt_lt, Int32.toInt_toInt64]
  rfl

/-- The digits of a number that is not negative are those of its word. -/
theorem toNat_of_nonneg {x : UInt32} (hx : 0 ≤ x.toInt32) :
    x.toInt32.toInt64.toUInt64.toNat = x.toNat := by
  have hlong : 0 ≤ x.toInt32.toInt64 := by
    rw [← Int64.not_lt, long_neg_iff, Int32.not_lt]
    exact hx
  rw [Int64.toNat_toUInt64_of_le hlong, Int32.toNatClampNeg_toInt64,
    ← Int32.toNat_toUInt32_of_le hx, UInt32.toUInt32_toInt32]

/-- The digits behind the sign come to the number again once it is negated; the
least number is one of them. -/
theorem neg_ofNat_of_neg {x : UInt32} (hx : x.toInt32 < 0) :
    -Int32.ofNat (-x.toInt32.toInt64).toUInt64.toNat = x.toInt32 := by
  have hzero : (0 : Int32).toInt = 0 := rfl
  have hlow := x.toInt32.le_toInt
  have hneg : x.toInt32.toInt < 0 := Int32.lt_iff_toInt_lt.mp hx
  have hint : (-x.toInt32.toInt64).toInt = -x.toInt32.toInt := by
    rw [Int64.toInt_neg, Int32.toInt_toInt64]
    exact Int.bmod_eq_of_le (by omega) (by omega)
  have hnonneg : 0 ≤ -x.toInt32.toInt64 := by
    rw [Int64.le_iff_toInt_le, hint]
    exact Int.neg_nonneg.mpr (le_of_lt hneg)
  have hnat : (((-x.toInt32.toInt64).toUInt64.toNat : Nat) : Int) = -x.toInt32.toInt := by
    rw [Int64.toNat_toUInt64_of_le hnonneg, ← Int64.toNat_toInt, hint]
    omega
  rw [Int32.neg_ofNat, hnat, Int.neg_neg, Int32.ofInt_toInt]

theorem Shows.signed_text (h : Shows Directive.Blank fmt 'd'.toUInt8) (args : Args)
    (hx : 0 ≤ (args 0).word.toInt32) :
    ∃ k, ∃ text : CString, formatted fmt args = .ok (text.bytes.map charToInt) ∧
      text.bytes = List.replicate k ' '.toUInt8 ++ digitText 10 (args 0).word.toNat := by
  obtain ⟨d, hblank, hlflag, hshown⟩ := h args
  obtain ⟨k, hprint⟩ := printnum_blank (args 0).word.toInt32.toInt64.toUInt64 .decimal hblank
  obtain ⟨text, htext⟩ := exists_text (b := 10) (k := k) (n := (args 0).word.toNat)
    (by omega) (by omega) [] (by simp)
  have hpos : ¬ (args 0).word.toInt32.toInt64 < 0 := by
    rw [long_neg_iff, Int32.not_lt]
    exact hx
  have hconvert := convert_signed args hlflag
  rw [if_neg hpos] at hconvert
  refine ⟨k, text, ?_, htext⟩
  rw [hshown _ _ hconvert, hprint, htext, toNat_of_nonneg hx]
  rfl

theorem Shows.reads_signed (h : Shows Directive.Blank fmt 'd'.toUInt8) {x : UInt32}
    (hx : 0 ≤ x.toInt32) : Reads fmt x 10 ∧ Reads fmt x 0 := by
  have hten : (10 : Int32) = Int32.ofNat 10 := rfl
  constructor
  · rintro args rfl
    obtain ⟨k, text, hout, htext⟩ := h.signed_text args hx
    refine ⟨text, hout, ?_⟩
    rw [hten, strtol_numeral (by omega) (by omega) htext, ofNat_toNat]
  · rintro args rfl
    obtain ⟨k, text, hout, htext⟩ := h.signed_text args hx
    refine ⟨text, hout, ?_⟩
    rw [strtol_decimal htext, ofNat_toNat]

theorem Shows.reads_negative (h : Shows (fun d => d.width = -1) fmt 'd'.toUInt8) {x : UInt32}
    (hx : x.toInt32 < 0) : Reads fmt x 10 ∧ Reads fmt x 0 := by
  have hread : ∀ args : Args, (args 0).word = x → ∃ text : CString,
      formatted fmt args = .ok (text.bytes.map charToInt) ∧
        strtol text 10 = (x.toInt32, []) ∧ strtol text 0 = (x.toInt32, []) := by
    rintro args rfl
    obtain ⟨d, hwidth, hlflag, hshown⟩ := h args
    change d.width = -1 at hwidth
    have hconvert := convert_signed args hlflag
    rw [if_pos ((long_neg_iff _).mpr hx), hwidth, printnum_default] at hconvert
    have hlead : ∀ c ∈ ['-'.toUInt8], c ≠ 0 := by
      rw [List.forall_mem_singleton]
      decide
    obtain ⟨text, htext⟩ := exists_text (b := 10) (k := 0)
      (n := (-(args 0).word.toInt32.toInt64).toUInt64.toNat) (by omega) (by omega) _ hlead
    have hvalue := strtol_negative htext
    rw [neg_ofNat_of_neg hx] at hvalue
    refine ⟨text, ?_, hvalue⟩
    rw [hshown _ _ hconvert, htext]
    rfl
  constructor
  · intro args hargs
    obtain ⟨text, hout, hten, -⟩ := hread args hargs
    exact ⟨text, hout, hten⟩
  · intro args hargs
    obtain ⟨text, hout, -, hzero⟩ := hread args hargs
    exact ⟨text, hout, hzero⟩

end

theorem literal_directive (letter : Char) (hletter : letter.toUInt8 ≠ 0) :
    OneDirective (.lit (String.ofList ['%', letter])) [] letter.toUInt8 := by
  have hpercent : '%'.toUInt8 ≠ 0 := by decide
  simp [OneDirective, CString.lit, hpercent, hletter]

/-- `strtol` reads back what the number formats print, whatever the word: with
the base of the format, with base 0 for the decimal ones and for pointers, and
behind the blanks of a width, unless a sign is printed before them. -/
theorem strtol_reads_printed (x : UInt32) :
    Reads (.lit "%d") x 10 ∧ Reads (.lit "%d") x 0 ∧
    Reads (.lit "%u") x 10 ∧ Reads (.lit "%u") x 0 ∧
    Reads (.lit "%o") x 8 ∧ Reads (.lit "%x") x 16 ∧
    Reads (.lit "%p") x 0 ∧ Reads (.lit "%p") x 16 ∧
    ∀ (w : Nat) (fmt : CString),
      (OneDirective fmt (digitText 10 w) 'd'.toUInt8 → 0 ≤ x.toInt32 →
        Reads fmt x 10 ∧ Reads fmt x 0) ∧
      (OneDirective fmt (digitText 10 w) 'u'.toUInt8 → Reads fmt x 10 ∧ Reads fmt x 0) ∧
      (OneDirective fmt (digitText 10 w) 'o'.toUInt8 → Reads fmt x 8) ∧
      (OneDirective fmt (digitText 10 w) 'x'.toUInt8 → Reads fmt x 16) := by
  have hletters : ¬ Modifier 'd'.toUInt8 ∧ ¬ Modifier 'u'.toUInt8 ∧ ¬ Modifier 'o'.toUInt8 ∧
      ¬ Modifier 'x'.toUInt8 ∧ ¬ Modifier 'p'.toUInt8 := by
    unfold Modifier
    decide
  obtain ⟨hd, hu, ho, hx, hp⟩ := hletters
  have hsigned := (literal_directive 'd' (by decide)).shows_default hd
  have hunsigned := (literal_directive 'u' (by decide)).shows_default hu
  have hoctal := (literal_directive 'o' (by decide)).shows_default ho
  have hhex := (literal_directive 'x' (by decide)).shows_default hx
  have hpointer := (literal_directive 'p' (by decide)).shows_default hp
  have hdecimal : Reads (.lit "%d") x 10 ∧ Reads (.lit "%d") x 0 := by
    rcases Int32.lt_or_le x.toInt32 0 with hneg | hnonneg
    · exact hsigned.reads_negative hneg
    · exact hsigned.blank.reads_signed hnonneg
  refine ⟨hdecimal.1, hdecimal.2, hunsigned.blank.reads_unsigned (.inl ⟨rfl, rfl⟩) x,
    hunsigned.blank.reads_unsigned_zero x,
    hoctal.blank.reads_unsigned (.inr (.inl ⟨rfl, rfl⟩)) x,
    hhex.blank.reads_unsigned (.inr (.inr ⟨rfl, rfl⟩)) x,
    hpointer.reads_pointer (.inl rfl) x, hpointer.reads_pointer (.inr rfl) x, ?_⟩
  intro w fmt
  refine ⟨?_, ?_, ?_, ?_⟩
  · intro hfmt hnonneg
    exact (hfmt.shows_width hd).reads_signed hnonneg
  · intro hfmt
    have hshows := hfmt.shows_width hu
    exact ⟨hshows.reads_unsigned (.inl ⟨rfl, rfl⟩) x, hshows.reads_unsigned_zero x⟩
  · intro hfmt
    exact (hfmt.shows_width ho).reads_unsigned (.inr (.inl ⟨rfl, rfl⟩)) x
  · intro hfmt
    exact (hfmt.shows_width hx).reads_unsigned (.inr (.inr ⟨rfl, rfl⟩)) x

example : OneDirective (.lit "%12d") (digitText 10 12) 'd'.toUInt8 := by
  unfold OneDirective
  decide

end Jos
