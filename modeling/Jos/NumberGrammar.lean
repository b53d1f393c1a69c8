import Jos.Strtol

/-!
The numbers that `strtol` is to accept: blanks, a sign, the prefix of a base, and digits. It reads
as much as it can, but it steps over the blanks, the sign and the prefix `0x` before it knows that a
digit follows.
-/

namespace Jos

/-- The value of a digit, of either case. -/
def digitValue (c : UInt8) : Option Nat :=
  if '0'.toUInt8 ≤ c ∧ c ≤ '9'.toUInt8 then some (c.toNat - 48)
  else if 'a'.toUInt8 ≤ c ∧ c ≤ 'z'.toUInt8 then some (c.toNat - 97 + 10)
  else if 'A'.toUInt8 ≤ c ∧ c ≤ 'Z'.toUInt8 then some (c.toNat - 65 + 10)
  else none

/-- A digit that is valid in base `b`. -/
def DigitIn (b : Nat) (c : UInt8) : Prop := ∃ d, digitValue c = some d ∧ d < b

instance (b : Nat) : DecidablePred (DigitIn b) := fun c =>
  match h : digitValue c with
  | none => isFalse (by rintro ⟨d, hd, -⟩; rw [h] at hd; cases hd)
  | some d => decidable_of_iff (d < b) (by simp [DigitIn, h])

/-- The positional value of digits, behind those that came to `v`. -/
def valueFrom (b v : Nat) (s : List UInt8) : Nat :=
  s.foldl (fun v c => v * b + (digitValue c).getD 0) v

/-- The characters of a number without its sign, for a call with base `base`, and its value. -/
inductive Magnitude (base : Nat) : List UInt8 → Nat → Prop
  | given {s : List UInt8} (hbase : base ≠ 0) (hs : s ≠ []) (hdigits : ∀ c ∈ s, DigitIn base c) :
      Magnitude base s (valueFrom base 0 s)
  | hexadecimal {s : List UInt8} (hbase : base = 0 ∨ base = 16) (hs : s ≠ [])
      (hdigits : ∀ c ∈ s, DigitIn 16 c) :
      Magnitude base ('0'.toUInt8 :: 'x'.toUInt8 :: s) (valueFrom 16 0 s)
  | octal {s : List UInt8} (hbase : base = 0) (hdigits : ∀ c ∈ s, DigitIn 8 c) :
      Magnitude base ('0'.toUInt8 :: s) (valueFrom 8 0 s)
  | decimal {s : List UInt8} (hbase : base = 0) (hs : s ≠ [])
      (hzero : s.head? ≠ some '0'.toUInt8) (hdigits : ∀ c ∈ s, DigitIn 10 c) :
      Magnitude base s (valueFrom 10 0 s)

def Blank (c : UInt8) : Prop := c = ' '.toUInt8 ∨ c = '\t'.toUInt8

/-- No sign or one, with what it stands for. -/
inductive Sign : List UInt8 → Bool → Prop
  | none : Sign [] false
  | plus : Sign ['+'.toUInt8] false
  | minus : Sign ['-'.toUInt8] true

/-- A number with the blanks before it, and its value at 32 bits. -/
inductive Accepts (base : Nat) : List UInt8 → Int32 → Prop
  | mk {blanks sign digits : List UInt8} {neg : Bool} {n : Nat} (hblanks : ∀ c ∈ blanks, Blank c)
      (hsign : Sign sign neg) (hdigits : Magnitude base digits n) :
      Accepts base (blanks ++ sign ++ digits) (Int32.ofInt (if neg then -n else n))

/-- `strtol` reads the longest number at the front of the string, or nothing where there is none. -/
def ReadsLongest (s : CString) (base : Nat) : Prop :=
  (∃ text v rest, s.bytes = text ++ rest ∧ Accepts base text v ∧
    (∀ text' v', text' <+: s.bytes → Accepts base text' v' → text'.length ≤ text.length) ∧
    strtol s (Int32.ofNat base) = (v, rest)) ∨
  ((∀ text v, text <+: s.bytes → ¬ Accepts base text v) ∧
    strtol s (Int32.ofNat base) = (0, s.bytes))

/-- What stands behind the blanks and the sign. -/
def unsignedPart (s : List UInt8) : List UInt8 := (signOf (gobble s)).2

/-- A `0x` that no digit follows. -/
def BarePrefix (base : Nat) (s : List UInt8) : Prop :=
  (base = 0 ∨ base = 16) ∧ ∃ rest, s = '0'.toUInt8 :: 'x'.toUInt8 :: rest ∧
    ∀ c, rest.head? = some c → ¬ DigitIn 16 c

/-- The first character is a digit; base 0 begins with a decimal digit. -/
def StartsDigit (base : Nat) (s : List UInt8) : Prop :=
  ∃ c rest, s = c :: rest ∧ DigitIn (if base = 0 then 10 else base) c

section

variable {b base v n : Nat} {s t rest : List UInt8} {c : UInt8}

theorem digitOf_eq (c : UInt8) : digitOf c = (digitValue c).map Int32.ofNat := by
  have hall : ∀ i : Fin 256, digitOf (UInt8.ofNat i) =
      (digitValue (UInt8.ofNat i)).map Int32.ofNat := by decide +kernel
  have hc := hall ⟨c.toNat, c.toNat_lt⟩
  rwa [UInt8.ofNat_toNat] at hc

theorem digitValue_lt (h : digitValue c = some n) : n < 36 := by
  have hall : ∀ i : Fin 256, ∀ d ∈ digitValue (UInt8.ofNat i), d < 36 := by decide +kernel
  have hc := hall ⟨c.toNat, c.toNat_lt⟩ n
  rw [UInt8.ofNat_toNat] at hc
  exact hc h

/-- The loop reads the digits of its base, and what they come to wraps. -/
theorem accumulate_eq (hb : b ≤ 36) (v : Nat) (s : List UInt8) :
    accumulate (Int32.ofNat b) (Int32.ofNat v) s =
      (Int32.ofNat (valueFrom b v (s.takeWhile (DigitIn b ·))), s.dropWhile (DigitIn b ·)) := by
  induction s generalizing v with
  | nil => rfl
  | cons c s ih =>
    rw [accumulate, digitOf_eq]
    cases hc : digitValue c with
    | none =>
      have hno : ¬ DigitIn b c := by
        rintro ⟨d, hd, -⟩
        rw [hc] at hd
        cases hd
      rw [List.takeWhile_cons_of_neg (by simpa using hno),
        List.dropWhile_cons_of_neg (by simpa using hno)]
      rfl
    | some d =>
      have hd := digitValue_lt hc
      have hle : Int32.ofNat b ≤ Int32.ofNat d ↔ b ≤ d := by
        rw [Int32.le_iff_toInt_le, Int32.toInt_ofNat_of_lt (by omega),
          Int32.toInt_ofNat_of_lt (by omega)]
        omega
      have hin : DigitIn b c ↔ d < b := by simp [DigitIn, hc]
      simp only [Option.map_some]
      by_cases hlt : d < b
      · have hyes := hin.mpr hlt
        rw [if_neg (by rw [hle]; omega), List.takeWhile_cons_of_pos (by simpa using hyes),
          List.dropWhile_cons_of_pos (by simpa using hyes), ← Int32.ofNat_mul, ← Int32.ofNat_add,
          ih]
        rw [valueFrom, valueFrom, List.foldl_cons, hc]
        rfl
      · have hno : ¬ DigitIn b c := fun h => hlt (hin.mp h)
        rw [if_pos (by rw [hle]; omega), List.takeWhile_cons_of_neg (by simpa using hno),
          List.dropWhile_cons_of_neg (by simpa using hno)]
        rfl

theorem digits_le (h : t <+: s) (ht : ∀ c ∈ t, DigitIn b c) :
    t.length ≤ (s.takeWhile (DigitIn b ·)).length := by
  obtain ⟨rest, rfl⟩ := h
  rw [List.takeWhile_append_of_pos (by simpa using ht), List.length_append]
  exact Nat.le_add_right _ _

theorem digitIn_takeWhile (b : Nat) (s : List UInt8) :
    ∀ c ∈ s.takeWhile (DigitIn b ·), DigitIn b c := by
  intro c hc
  simpa using List.mem_takeWhile_imp hc

/-- The `x` of the prefix is a digit only in the large bases. -/
theorem x_not_digit (hb : b ≤ 16) : ¬ DigitIn b 'x'.toUInt8 := by
  rintro ⟨d, hd, hlt⟩
  have hx : digitValue 'x'.toUInt8 = some 33 := by decide
  obtain rfl := Option.some.inj (hx.symm.trans hd)
  omega

theorem zero_digit (hb : 0 < b) : DigitIn b '0'.toUInt8 := ⟨0, by decide, hb⟩

/-- Behind a bare prefix at most the zero can be read. -/
theorem before_x (hb : b ≤ 16) (h : t <+: '0'.toUInt8 :: 'x'.toUInt8 :: s)
    (ht : ∀ c ∈ t, DigitIn b c) : t.length ≤ 1 := by
  have hle := digits_le h ht
  have hcut : (('0'.toUInt8 :: 'x'.toUInt8 :: s).takeWhile (DigitIn b ·)).length ≤ 1 := by
    rw [List.takeWhile_cons]
    split
    · rw [List.takeWhile_cons_of_neg (by simpa using x_not_digit hb)]
      exact le_refl _
    · exact Nat.zero_le _
  exact hle.trans hcut

theorem ofNat_inj_small (hbase : base ≤ 36) {k : Nat} (hk : k ≤ 36) :
    Int32.ofNat base = Int32.ofNat k ↔ base = k := by
  constructor
  · intro h
    have hint := congrArg Int32.toInt h
    rw [Int32.toInt_ofNat_of_lt (by omega), Int32.toInt_ofNat_of_lt (by omega)] at hint
    omega
  · exact congrArg Int32.ofNat

theorem basePrefix_hexadecimal (hbase : base = 0 ∨ base = 16) (s : List UInt8) :
    basePrefix (Int32.ofNat base) ('0'.toUInt8 :: 'x'.toUInt8 :: s) = (Int32.ofNat 16, s) := by
  rcases hbase with rfl | rfl <;> rfl

theorem basePrefix_octal (hx : s.head? ≠ some 'x'.toUInt8) :
    basePrefix (Int32.ofNat 0) ('0'.toUInt8 :: s) = (Int32.ofNat 8, s) := by
  have hsecond : ('0'.toUInt8 :: s)[1]? ≠ some 'x'.toUInt8 := by
    rw [List.getElem?_cons_succ, ← List.head?_eq_getElem?]
    exact hx
  unfold basePrefix
  rw [if_neg fun h => hsecond h.2.2]
  rfl

theorem basePrefix_no_zero (hzero : s.head? ≠ some '0'.toUInt8) :
    basePrefix (Int32.ofNat 0) s = (Int32.ofNat 10, s) := by
  rw [List.head?_eq_getElem?] at hzero
  unfold basePrefix
  rw [if_neg fun h => hzero h.2.1, if_neg fun h => hzero h.2]
  rfl

/-- A base is kept as it is, unless it is 16 and its prefix stands there. -/
theorem basePrefix_other (hbase : base ≠ 0) (hle : base ≤ 36)
    (hx : base = 16 → ∀ rest, s ≠ '0'.toUInt8 :: 'x'.toUInt8 :: rest) :
    basePrefix (Int32.ofNat base) s = (Int32.ofNat base, s) := by
  have hne : Int32.ofNat base ≠ 0 := fun h => hbase ((ofNat_inj_small hle (k := 0) (by omega)).mp h)
  have hno : ¬ ((Int32.ofNat base = 0 ∨ Int32.ofNat base = 16) ∧ s[0]? = some '0'.toUInt8 ∧
      s[1]? = some 'x'.toUInt8) := by
    rintro ⟨h | h, hfirst, hsecond⟩
    · exact hne h
    · have hbase16 := (ofNat_inj_small hle (k := 16) (by omega)).mp h
      cases s with
      | nil => cases hfirst
      | cons c s =>
        cases s with
        | nil => cases hsecond
        | cons c' s =>
          obtain rfl := Option.some.inj hfirst
          obtain rfl := Option.some.inj hsecond
          exact hx hbase16 s rfl
  unfold basePrefix
  rw [if_neg hno, if_neg fun h => hne h.1, if_neg hne]

/-- The value at 32 bits and the rest, as `strtol` reads them behind the sign. -/
def readMagnitude (base : Nat) (s : List UInt8) : Int32 × List UInt8 :=
  accumulate (basePrefix (Int32.ofNat base) s).1 0 (basePrefix (Int32.ofNat base) s).2

theorem readMagnitude_eq (hb : b ≤ 36)
    (hprefixed : basePrefix (Int32.ofNat base) s = (Int32.ofNat b, t)) :
    readMagnitude base s =
      (Int32.ofNat (valueFrom b 0 (t.takeWhile (DigitIn b ·))), t.dropWhile (DigitIn b ·)) := by
  unfold readMagnitude
  rw [hprefixed]
  exact accumulate_eq hb 0 t

theorem startsDigit_cons :
    StartsDigit base (c :: s) ↔ DigitIn (if base = 0 then 10 else base) c := by
  constructor
  · rintro ⟨c', rest, heq, hdigit⟩
    obtain ⟨rfl, -⟩ := List.cons.inj heq
    exact hdigit
  · exact fun h => ⟨c, s, rfl, h⟩

theorem Magnitude.ne_nil (h : Magnitude base s n) : s ≠ [] := by
  cases h with
  | given _ hs _ => exact hs
  | hexadecimal _ _ _ => exact List.cons_ne_nil _ _
  | octal _ _ => exact List.cons_ne_nil _ _
  | decimal _ hs _ _ => exact hs

theorem Magnitude.startsDigit (h : Magnitude base t n) (hle : t <+: s) : StartsDigit base s := by
  obtain ⟨rest, rfl⟩ := hle
  cases t with
  | nil => exact absurd rfl h.ne_nil
  | cons c t =>
    rw [List.cons_append, startsDigit_cons]
    generalize htext : c :: t = text at h
    cases h with
    | given hbase _ hdigits =>
      rw [if_neg hbase]
      exact hdigits c (htext ▸ List.mem_cons_self)
    | hexadecimal hbase _ _ =>
      obtain ⟨rfl, -⟩ := List.cons.inj htext
      exact zero_digit (by split <;> omega)
    | octal hbase _ =>
      obtain ⟨rfl, -⟩ := List.cons.inj htext
      exact zero_digit (by split <;> omega)
    | decimal hbase _ _ hdigits =>
      rw [if_pos hbase]
      exact hdigits c (htext ▸ List.mem_cons_self)

theorem Magnitude.le_hexadecimal (h : Magnitude base t n) (hbase : base = 0 ∨ base = 16)
    (hle : t <+: '0'.toUInt8 :: 'x'.toUInt8 :: s) :
    t.length ≤ (s.takeWhile (DigitIn 16 ·)).length + 2 := by
  cases h with
  | given hne _ hdigits =>
    have hone := before_x (by omega) hle hdigits
    omega
  | hexadecimal _ _ hdigits =>
    rw [List.cons_prefix_cons, List.cons_prefix_cons] at hle
    have hdig := digits_le hle.2.2 hdigits
    simp only [List.length_cons]
    omega
  | octal _ hdigits =>
    have hall : ∀ c ∈ '0'.toUInt8 :: _, DigitIn 8 c :=
      List.forall_mem_cons.mpr ⟨zero_digit (by omega), hdigits⟩
    have hone := before_x (by omega) hle hall
    omega
  | decimal _ _ _ hdigits =>
    have hone := before_x (by omega) hle hdigits
    omega

theorem Magnitude.le_octal (h : Magnitude 0 t n) (hle : t <+: '0'.toUInt8 :: s)
    (hx : s.head? ≠ some 'x'.toUInt8) : t.length ≤ (s.takeWhile (DigitIn 8 ·)).length + 1 := by
  cases h with
  | given hne _ _ => exact absurd rfl hne
  | hexadecimal _ _ _ =>
    rw [List.cons_prefix_cons] at hle
    obtain ⟨rest, rfl⟩ := hle.2
    exact absurd rfl hx
  | octal _ hdigits =>
    rw [List.cons_prefix_cons] at hle
    have hdig := digits_le hle.2 hdigits
    rw [List.length_cons]
    omega
  | decimal _ hs hzero _ =>
    obtain ⟨c, t, rfl⟩ := List.exists_cons_of_ne_nil hs
    rw [List.cons_prefix_cons] at hle
    exact absurd (congrArg some hle.1) hzero

theorem Magnitude.le_decimal (h : Magnitude 0 t n) (hle : t <+: s)
    (hzero : s.head? ≠ some '0'.toUInt8) : t.length ≤ (s.takeWhile (DigitIn 10 ·)).length := by
  obtain ⟨rest, hs⟩ := hle
  cases h with
  | given hne _ _ => exact absurd rfl hne
  | hexadecimal _ _ _ =>
    rw [← hs] at hzero
    exact absurd rfl hzero
  | octal _ _ =>
    rw [← hs] at hzero
    exact absurd rfl hzero
  | decimal _ _ _ hdigits => exact digits_le ⟨rest, hs⟩ hdigits

theorem Magnitude.le_given (h : Magnitude base t n) (hbase : base ≠ 0) (hle : t <+: s)
    (hx : base = 16 → ∀ rest, s ≠ '0'.toUInt8 :: 'x'.toUInt8 :: rest) :
    t.length ≤ (s.takeWhile (DigitIn base ·)).length := by
  cases h with
  | given _ _ hdigits => exact digits_le hle hdigits
  | hexadecimal hbase' _ _ =>
    obtain ⟨rest, hs⟩ := hle
    exact absurd hs.symm (hx (hbase'.resolve_left hbase) _)
  | octal hzero _ => exact absurd hzero hbase
  | decimal hzero _ _ _ => exact absurd hzero hbase

/-- The longest number at the front, as the code reads it. -/
def ReadsMagnitude (base : Nat) (s : List UInt8) : Prop :=
  ∃ digits n rest, s = digits ++ rest ∧ Magnitude base digits n ∧
    readMagnitude base s = (Int32.ofNat n, rest) ∧
    ∀ t m, t <+: s → Magnitude base t m → t.length ≤ digits.length

theorem takeWhile_ne_nil {b : Nat} (h : DigitIn b c) : (c :: s).takeWhile (DigitIn b ·) ≠ [] := by
  rw [List.takeWhile_cons_of_pos (by simpa using h)]
  exact List.cons_ne_nil _ _

theorem readsMagnitude_hexadecimal (hbase : base = 0 ∨ base = 16)
    (hbare : ¬ BarePrefix base ('0'.toUInt8 :: 'x'.toUInt8 :: s)) :
    ReadsMagnitude base ('0'.toUInt8 :: 'x'.toUInt8 :: s) := by
  have hs : s.takeWhile (DigitIn 16 ·) ≠ [] := by
    intro hnil
    refine hbare ⟨hbase, s, rfl, ?_⟩
    intro c hc hdigit
    obtain ⟨rest, rfl⟩ := List.head?_eq_some_iff.mp hc
    exact takeWhile_ne_nil hdigit hnil
  refine ⟨_, _, s.dropWhile (DigitIn 16 ·), ?_,
    .hexadecimal hbase hs (digitIn_takeWhile 16 s),
    readMagnitude_eq (by omega) (basePrefix_hexadecimal hbase s), ?_⟩
  · rw [List.cons_append, List.cons_append, List.takeWhile_append_dropWhile]
  · intro t m hle hm
    exact hm.le_hexadecimal hbase hle

theorem readsMagnitude_octal (hx : s.head? ≠ some 'x'.toUInt8) :
    ReadsMagnitude 0 ('0'.toUInt8 :: s) := by
  refine ⟨_, _, s.dropWhile (DigitIn 8 ·), ?_, .octal rfl (digitIn_takeWhile 8 s),
    readMagnitude_eq (by omega) (basePrefix_octal hx), ?_⟩
  · rw [List.cons_append, List.takeWhile_append_dropWhile]
  · intro t m hle hm
    exact hm.le_octal hle hx

theorem readsMagnitude_decimal (hzero : s.head? ≠ some '0'.toUInt8)
    (hs : s.takeWhile (DigitIn 10 ·) ≠ []) : ReadsMagnitude 0 s := by
  refine ⟨_, _, s.dropWhile (DigitIn 10 ·), List.takeWhile_append_dropWhile.symm,
    .decimal rfl hs ?_ (digitIn_takeWhile 10 s),
    readMagnitude_eq (by omega) (basePrefix_no_zero hzero), ?_⟩
  · cases s with
    | nil => exact absurd rfl hs
    | cons c s =>
      rw [List.takeWhile_cons]
      split
      · exact hzero
      · exact Option.some_ne_none _ |>.symm
  · intro t m hle hm
    exact hm.le_decimal hle hzero

theorem readsMagnitude_given (hbase : base ≠ 0) (hle : base ≤ 36)
    (hx : base = 16 → ∀ rest, s ≠ '0'.toUInt8 :: 'x'.toUInt8 :: rest)
    (hs : s.takeWhile (DigitIn base ·) ≠ []) : ReadsMagnitude base s := by
  refine ⟨_, _, s.dropWhile (DigitIn base ·), List.takeWhile_append_dropWhile.symm,
    .given hbase hs (digitIn_takeWhile base s),
    readMagnitude_eq hle (basePrefix_other hbase hle hx), ?_⟩
  intro t m hpre hm
  exact hm.le_given hbase hpre hx

theorem readsMagnitude (hbase : base ≤ 36) (hbare : ¬ BarePrefix base s)
    (hstart : StartsDigit base s) : ReadsMagnitude base s := by
  obtain ⟨c, rest, rfl, hdigit⟩ := hstart
  by_cases hzero : base = 0
  · subst hzero
    rw [if_pos rfl] at hdigit
    by_cases hc : c = '0'.toUInt8
    · subst hc
      by_cases hx : rest.head? = some 'x'.toUInt8
      · obtain ⟨rest, rfl⟩ := List.head?_eq_some_iff.mp hx
        exact readsMagnitude_hexadecimal (.inl rfl) hbare
      · exact readsMagnitude_octal hx
    · exact readsMagnitude_decimal (fun h => hc (Option.some.inj h)) (takeWhile_ne_nil hdigit)
  · rw [if_neg hzero] at hdigit
    by_cases hx : base = 16 ∧ ∃ rest', c :: rest = '0'.toUInt8 :: 'x'.toUInt8 :: rest'
    · obtain ⟨hbase16, rest', heq⟩ := hx
      rw [heq] at hbare ⊢
      exact readsMagnitude_hexadecimal (.inr hbase16) hbare
    · exact readsMagnitude_given hzero hbase (fun h rest' heq => hx ⟨h, rest', heq⟩)
        (takeWhile_ne_nil hdigit)

/-- Without a digit nothing is read. -/
theorem readMagnitude_none (hpos : base = 0 ∨ 2 ≤ base) (hbase : base ≤ 36)
    (hstart : ¬ StartsDigit base s) : readMagnitude base s = (0, s) := by
  have hzero : s.head? ≠ some '0'.toUInt8 := by
    intro h
    obtain ⟨rest, rfl⟩ := List.head?_eq_some_iff.mp h
    exact hstart (startsDigit_cons.mpr (zero_digit (by split <;> omega)))
  have hread {b : Nat} (hb : (if base = 0 then 10 else base) = b) :
      s.takeWhile (DigitIn b ·) = [] ∧ s.dropWhile (DigitIn b ·) = s := by
    cases s with
    | nil => exact ⟨rfl, rfl⟩
    | cons c s =>
      rw [startsDigit_cons, hb] at hstart
      rw [List.takeWhile_cons_of_neg (by simpa using hstart),
        List.dropWhile_cons_of_neg (by simpa using hstart)]
      exact ⟨rfl, rfl⟩
  by_cases h0 : base = 0
  · subst h0
    obtain ⟨htake, hdrop⟩ := hread (b := 10) rfl
    rw [readMagnitude_eq (by omega) (basePrefix_no_zero hzero), htake, hdrop]
    rfl
  · obtain ⟨htake, hdrop⟩ := hread (b := base) (if_neg h0)
    have hx : base = 16 → ∀ rest, s ≠ '0'.toUInt8 :: 'x'.toUInt8 :: rest := by
      rintro - rest rfl
      exact hzero rfl
    rw [readMagnitude_eq hbase (basePrefix_other h0 hbase hx), htake, hdrop]
    rfl

/-- A bare prefix is read over, where the zero alone is a number. -/
theorem readMagnitude_bare (h : BarePrefix base s) :
    ∃ rest, s = '0'.toUInt8 :: 'x'.toUInt8 :: rest ∧ readMagnitude base s = (0, rest) ∧
      (∃ n, Magnitude base ['0'.toUInt8] n) ∧
      ∀ n, ¬ Magnitude base ['0'.toUInt8, 'x'.toUInt8] n := by
  obtain ⟨hbase, rest, rfl, hrest⟩ := h
  refine ⟨rest, rfl, ?_, ?_, ?_⟩
  · have hread : rest.takeWhile (DigitIn 16 ·) = [] ∧ rest.dropWhile (DigitIn 16 ·) = rest := by
      cases rest with
      | nil => exact ⟨rfl, rfl⟩
      | cons c rest =>
        have hc := hrest c rfl
        rw [List.takeWhile_cons_of_neg (by simpa using hc),
          List.dropWhile_cons_of_neg (by simpa using hc)]
        exact ⟨rfl, rfl⟩
    rw [readMagnitude_eq (by omega) (basePrefix_hexadecimal hbase rest), hread.1, hread.2]
    rfl
  · rcases hbase with rfl | rfl
    · exact ⟨_, .octal rfl (by simp)⟩
    · refine ⟨_, .given (by decide) (List.cons_ne_nil _ _) ?_⟩
      rw [List.forall_mem_singleton]
      exact zero_digit (by decide)
  · intro n hn
    generalize htext : ['0'.toUInt8, 'x'.toUInt8] = text at hn
    cases hn with
    | given hne _ hdigits =>
      subst htext
      exact x_not_digit (by omega) (hdigits _ (List.mem_cons_of_mem _ List.mem_cons_self))
    | hexadecimal _ hs _ =>
      exact hs (List.cons.inj (List.cons.inj htext).2).2.symm
    | octal _ hdigits =>
      obtain ⟨-, rfl⟩ := List.cons.inj htext
      exact x_not_digit (by omega) (hdigits _ List.mem_cons_self)
    | decimal _ _ _ hdigits =>
      subst htext
      exact x_not_digit (by omega) (hdigits _ (List.mem_cons_of_mem _ List.mem_cons_self))

theorem DigitIn.not_lead (h : DigitIn b c) : ¬ Blank c ∧ c ≠ '+'.toUInt8 ∧ c ≠ '-'.toUInt8 := by
  obtain ⟨d, hd, -⟩ := h
  refine ⟨?_, ?_, ?_⟩
  · rintro (rfl | rfl) <;> cases hd
  · rintro rfl
    cases hd
  · rintro rfl
    cases hd

theorem gobble_blank (hblanks : ∀ c ∈ t, Blank c) (s : List UInt8) :
    gobble (t ++ s) = gobble s := by
  unfold gobble
  exact List.dropWhile_append_of_pos (by simpa [Blank] using hblanks)

theorem gobble_other (hc : ¬ Blank c) (s : List UInt8) : gobble (c :: s) = c :: s := by
  unfold Blank at hc
  rw [not_or] at hc
  exact gobble_cons hc.1 hc.2 s

/-- Blanks, sign and the rest are found again. -/
theorem signOf_lead {blanks sign : List UInt8} {neg : Bool} (hblanks : ∀ c ∈ blanks, Blank c)
    (hsign : Sign sign neg) (hdigit : DigitIn b c) :
    signOf (gobble (blanks ++ sign ++ c :: s)) = (neg, c :: s) := by
  obtain ⟨hblank, hplus, hminus⟩ := hdigit.not_lead
  rw [List.append_assoc, gobble_blank hblanks]
  cases hsign with
  | none =>
    rw [List.nil_append, gobble_other hblank, signOf_cons hplus hminus]
  | plus =>
    rw [List.singleton_append, gobble_other (by unfold Blank; decide)]
    rfl
  | minus =>
    rw [List.singleton_append, gobble_other (by unfold Blank; decide)]
    rfl

/-- What is stepped over are blanks and a sign. -/
theorem exists_lead (s : List UInt8) :
    ∃ blanks sign, s = blanks ++ sign ++ unsignedPart s ∧ (∀ c ∈ blanks, Blank c) ∧
      Sign sign (signOf (gobble s)).1 := by
  have hsign : ∃ sign, gobble s = sign ++ unsignedPart s ∧ Sign sign (signOf (gobble s)).1 := by
    unfold unsignedPart
    generalize gobble s = t
    cases t with
    | nil => exact ⟨[], rfl, .none⟩
    | cons c t =>
      by_cases hplus : c = '+'.toUInt8
      · subst hplus
        exact ⟨['+'.toUInt8], rfl, .plus⟩
      · by_cases hminus : c = '-'.toUInt8
        · subst hminus
          exact ⟨['-'.toUInt8], rfl, .minus⟩
        · rw [signOf_cons hplus hminus]
          exact ⟨[], rfl, .none⟩
  obtain ⟨sign, hrest, hsign⟩ := hsign
  refine ⟨s.takeWhile (fun c => c = ' '.toUInt8 ∨ c = '\t'.toUInt8), sign, ?_, ?_, hsign⟩
  · rw [List.append_assoc, ← hrest]
    exact List.takeWhile_append_dropWhile.symm
  · intro c hc
    simpa [Blank] using List.mem_takeWhile_imp hc

theorem Magnitude.head (h : Magnitude base t n) : ∃ c rest b, t = c :: rest ∧ DigitIn b c := by
  obtain ⟨c, rest, ht, hc⟩ := h.startsDigit (List.prefix_refl t)
  exact ⟨c, rest, _, ht, hc⟩

/-- A number at the front of a string has its digits at the front of the unsigned part. -/
theorem Accepts.unsigned {text : List UInt8} {x : Int32} (h : Accepts base text x)
    (rest : List UInt8) :
    ∃ digits n, Magnitude base digits n ∧ unsignedPart (text ++ rest) = digits ++ rest ∧
      x = Int32.ofInt (if (signOf (gobble (text ++ rest))).1 then -n else n) := by
  cases h with
  | @mk blanks sign digits neg n hblanks hsign hdigits =>
    obtain ⟨c, digits, b, rfl, hc⟩ := hdigits.head
    have hlead := signOf_lead (s := digits ++ rest) hblanks hsign hc
    rw [List.append_assoc, List.cons_append]
    refine ⟨_, n, hdigits, ?_, ?_⟩
    · unfold unsignedPart
      rw [hlead]
      rfl
    · rw [hlead]

theorem Accepts.of_unsigned {digits rest : List UInt8} (h : Magnitude base digits n)
    (hs : unsignedPart s = digits ++ rest) :
    ∃ text, s = text ++ rest ∧ text.length + (unsignedPart s).length = s.length + digits.length ∧
      Accepts base text (Int32.ofInt (if (signOf (gobble s)).1 then -n else n)) := by
  obtain ⟨blanks, sign, hsplit, hblanks, hsign⟩ := exists_lead s
  refine ⟨blanks ++ sign ++ digits, ?_, ?_, .mk hblanks hsign h⟩
  · rw [List.append_assoc, ← hs]
    exact hsplit
  · have hlength := congrArg List.length hsplit
    simp only [List.length_append] at hlength ⊢
    omega

theorem Accepts.length {text : List UInt8} {x : Int32} (h : Accepts base text x)
    (hle : text <+: s) : ∃ digits n, Magnitude base digits n ∧ digits <+: unsignedPart s ∧
      text.length + (unsignedPart s).length = s.length + digits.length := by
  obtain ⟨rest, rfl⟩ := hle
  obtain ⟨digits, n, hdigits, hunsigned, -⟩ := h.unsigned rest
  refine ⟨digits, n, hdigits, ⟨rest, hunsigned.symm⟩, ?_⟩
  rw [hunsigned]
  simp only [List.length_append]
  omega

theorem strtol_eq (s : CString) (base : Nat) :
    strtol s (Int32.ofNat base) =
      (if (signOf (gobble s.bytes)).1 then -(readMagnitude base (unsignedPart s.bytes)).1
        else (readMagnitude base (unsignedPart s.bytes)).1,
        (readMagnitude base (unsignedPart s.bytes)).2) := rfl

end

section

variable {s : CString} {base : Nat}

theorem ReadsLongest.not_bare (h : ReadsLongest s base) :
    ¬ BarePrefix base (unsignedPart s.bytes) := by
  intro hbare
  obtain ⟨rest, hunsigned, hread, ⟨n, hzero⟩, hno⟩ := readMagnitude_bare hbare
  rcases h with ⟨text, v, rest', hs, haccepts, -, hrun⟩ | ⟨hnone, -⟩
  · rw [strtol_eq, hread] at hrun
    obtain rfl := (Prod.mk.inj hrun).2
    obtain ⟨digits, m, hdigits, hparts, -⟩ := haccepts.unsigned rest
    rw [← hs, hunsigned] at hparts
    change ['0'.toUInt8, 'x'.toUInt8] ++ rest = digits ++ rest at hparts
    rw [← List.append_cancel_right hparts] at hdigits
    exact hno m hdigits
  · have hparts : unsignedPart s.bytes = ['0'.toUInt8] ++ 'x'.toUInt8 :: rest := hunsigned
    obtain ⟨text, hs, -, haccepts⟩ := Accepts.of_unsigned hzero hparts
    exact hnone text _ ⟨_, hs.symm⟩ haccepts

theorem ReadsLongest.starts (h : ReadsLongest s base) (hbase : base = 0 ∨ 2 ≤ base ∧ base ≤ 36) :
    StartsDigit base (unsignedPart s.bytes) ∨ unsignedPart s.bytes = s.bytes := by
  by_cases hstart : StartsDigit base (unsignedPart s.bytes)
  · exact .inl hstart
  · right
    rcases h with ⟨text, v, rest, hs, haccepts, -, -⟩ | ⟨-, hrun⟩
    · obtain ⟨digits, n, hdigits, hle, -⟩ := haccepts.length ⟨rest, hs.symm⟩
      exact absurd (hdigits.startsDigit hle) hstart
    · rw [strtol_eq, readMagnitude_none (by omega) (by omega) hstart] at hrun
      exact (Prod.mk.inj hrun).2

theorem readsLongest_digits (hbase : base ≤ 36) (hbare : ¬ BarePrefix base (unsignedPart s.bytes))
    (hdigit : StartsDigit base (unsignedPart s.bytes)) : ReadsLongest s base := by
  obtain ⟨digits, n, rest, hparts, hdigits, hread, hlongest⟩ := readsMagnitude hbase hbare hdigit
  obtain ⟨text, hs, hlength, haccepts⟩ := Accepts.of_unsigned hdigits hparts
  refine .inl ⟨text, _, rest, hs, haccepts, ?_, ?_⟩
  · intro text' v' hle haccepts'
    obtain ⟨digits', n', hdigits', hle', hlength'⟩ := haccepts'.length hle
    have hshorter := hlongest digits' n' hle' hdigits'
    omega
  · rw [strtol_eq, hread]
    dsimp only
    congr 1
    split
    · rw [Int32.neg_ofNat]
    · exact Int32.ofInt_eq_ofNat.symm

theorem readsLongest_none (hbase : base = 0 ∨ 2 ≤ base ∧ base ≤ 36)
    (hdigit : ¬ StartsDigit base (unsignedPart s.bytes)) (hsame : unsignedPart s.bytes = s.bytes) :
    ReadsLongest s base := by
  refine .inr ⟨?_, ?_⟩
  · intro text v hle haccepts
    obtain ⟨digits, n, hdigits, hpre, -⟩ := haccepts.length hle
    exact hdigit (hdigits.startsDigit hpre)
  · rw [strtol_eq, readMagnitude_none (by omega) (by omega) hdigit, hsame]
    have hneg : -(0 : Int32) = 0 := by decide
    dsimp only
    rw [hneg, ite_self]

end

/-- `strtol` reads the longest number exactly when it finds no `0x` without a digit, and finds a
digit wherever it steps over blanks or a sign. -/
theorem strtol_longest_iff (s : CString) (base : Nat) (hbase : base = 0 ∨ 2 ≤ base ∧ base ≤ 36) :
    ReadsLongest s base ↔ ¬ BarePrefix base (unsignedPart s.bytes) ∧
      (StartsDigit base (unsignedPart s.bytes) ∨ unsignedPart s.bytes = s.bytes) := by
  constructor
  · exact fun h => ⟨h.not_bare, h.starts hbase⟩
  · rintro ⟨hbare, hstart⟩
    by_cases hdigit : StartsDigit base (unsignedPart s.bytes)
    · exact readsLongest_digits (by omega) hbare hdigit
    · exact readsLongest_none hbase hdigit (hstart.resolve_left hdigit)

/-- Octal, with a blank and a sign before it. -/
theorem strtol_longest_iff_octal : ReadsLongest (.lit " -0179") 0 := by
  refine (strtol_longest_iff (.lit " -0179") 0 (.inl rfl)).mpr ⟨?_, .inl ?_⟩
  · rintro ⟨-, rest, heq, -⟩
    revert heq
    exact fun heq => absurd (List.cons.inj (List.cons.inj heq).2).1 (by decide)
  · exact ⟨'0'.toUInt8, _, rfl, 0, by decide, by decide⟩

/-- The zero of `0xg` is not read as a number of its own; of a string without a digit the blank is
read. -/
theorem strtol_reads_over : ¬ ReadsLongest (.lit "0xg") 16 ∧ ¬ ReadsLongest (.lit " z") 10 := by
  constructor
  · intro h
    refine h.not_bare ⟨.inr rfl, ['g'.toUInt8], rfl, ?_⟩
    intro c hc
    obtain rfl := Option.some.inj hc
    decide
  · intro h
    rcases h.starts (.inr (by decide)) with ⟨c, rest, heq, hdigit⟩ | hsame
    · obtain ⟨rfl, -⟩ := List.cons.inj (show ['z'.toUInt8] = c :: rest from heq)
      revert hdigit
      decide
    · exact absurd (congrArg List.length hsame) (by decide)

end Jos
