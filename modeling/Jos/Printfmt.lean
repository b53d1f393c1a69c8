import Jos.CString

/-!
The formatter `vprintfmt` that the kernel and user programs share. It passes
characters to a callback which returns nothing; here it returns the characters
passed, in order. The format is read by position, and a read outside of the
string is an error. `int` arithmetic wraps at 32 bits.
-/

namespace Jos

/-- One 32-bit slot of a `va_list`, and the string it points to when it is read
as a pointer that is not NULL. -/
structure VarArg where
  word : UInt32
  str : CString

/-- The arguments of a call; a `va_list` is an index into them. -/
abbrev Args := Nat → VarArg

/-- A `char` as an `int`: it is signed. -/
def charToInt (c : UInt8) : Int32 := c.toInt8.toInt32

/-- `*(unsigned char *) fmt` as an `int`. -/
def ucharToInt (c : UInt8) : Int32 := c.toUInt32.toInt32

/-- `for (; n > 0; n--) putch(padc);` -/
def putPad (n : Int32) (padc : UInt8) : List Int32 :=
  List.replicate n.toNatClampNeg (charToInt padc)

inductive Base where
  | octal
  | decimal
  | hexadecimal
deriving DecidableEq

def Base.val : Base → UInt64
  | .octal => 8
  | .decimal => 10
  | .hexadecimal => 16

def digits : List UInt8 := "0123456789abcdef".toList.map Char.toUInt8

def printnum (num : UInt64) (base : Base) (width : Int32) (padc : UInt8) : List Int32 :=
  (if base.val ≤ num then printnum (num / base.val) base (width - 1) padc
    else putPad (width - 1) padc) ++
    [charToInt (digits.getD (num % base.val).toNat 0)]
termination_by num.toNat
decreasing_by
  have hnum : base.val.toNat ≤ num.toNat := by assumption
  have hbase : 1 < base.val.toNat := by cases base <;> decide
  rw [UInt64.toNat_div]
  exact Nat.div_lt_self (by omega) hbase

/-- `va_arg(ap, unsigned long long)`: two slots, the low word first. -/
def ulonglong (args : Args) (ap : Nat) : UInt64 :=
  (args ap).word.toUInt64 ||| ((args (ap + 1)).word.toUInt64 <<< 32)

def getuint (args : Args) (ap : Nat) (lflag : Int32) : UInt64 × Nat :=
  if 2 ≤ lflag then (ulonglong args ap, ap + 2)
  else ((args ap).word.toUInt64, ap + 1)

def getint (args : Args) (ap : Nat) (lflag : Int32) : Int64 × Nat :=
  if 2 ≤ lflag then ((ulonglong args ap).toInt64, ap + 2)
  else ((args ap).word.toInt32.toInt64, ap + 1)

/-- What the flags, the width and the precision of a directive leave behind. -/
structure Directive where
  padc : UInt8 := ' '.toUInt8
  width : Int32 := -1
  precision : Int32 := -1
  lflag : Int32 := 0
  altflag : Bool := false
deriving DecidableEq

def Directive.processPrecision (d : Directive) : Directive :=
  if d.width < 0 then { d with width := d.precision, precision := -1 } else d

/-- The digits of a field width; `pos` is the place behind `ch`. -/
def readPrecision (fmt : CString) (precision : Int32) (ch : UInt8) (pos : Nat) :
    Except Fault (Int32 × Nat) :=
  let precision := precision * 10 + ucharToInt ch - ucharToInt '0'.toUInt8
  match _h : fmt.byteAt pos with
  | none => .error .outside
  | some ch =>
    if ch < '0'.toUInt8 ∨ '9'.toUInt8 < ch then .ok (precision, pos)
    else readPrecision fmt precision ch (pos + 1)
termination_by fmt.bytes.length + 1 - pos
decreasing_by
  have hpos := (List.getElem?_eq_some_iff.mp _h).1
  rw [List.length_append, List.length_singleton] at hpos
  omega

theorem readPrecision_le {fmt : CString} {precision n : Int32} {ch : UInt8} {pos pos' : Nat}
    (h : readPrecision fmt precision ch pos = .ok (n, pos')) : pos ≤ pos' := by
  fun_induction readPrecision fmt precision ch pos with
  | case1 => cases h
  | case2 =>
    have heq := Except.ok.inj h
    exact le_of_eq (congrArg Prod.snd heq)
  | case3 _ _ pos _ _ _ _ ih => exact le_trans (Nat.le_succ pos) (ih h)

/-- From `reswitch` on: follow the flags, the width and the precision up to the
letter of the conversion, which is returned with the place behind it. -/
def reswitch (fmt : CString) (args : Args) (d : Directive) (pos ap : Nat) :
    Except Fault (UInt8 × Directive × Nat × Nat) :=
  match _h : fmt.byteAt pos with
  | none => .error .outside
  | some ch =>
    if ch = '-'.toUInt8 then
      reswitch fmt args { d with padc := '-'.toUInt8 } (pos + 1) ap
    else if ch = '0'.toUInt8 then
      reswitch fmt args { d with padc := '0'.toUInt8 } (pos + 1) ap
    else if '1'.toUInt8 ≤ ch ∧ ch ≤ '9'.toUInt8 then
      match _hread : readPrecision fmt 0 ch (pos + 1) with
      | .error e => .error e
      | .ok (precision, pos) =>
        reswitch fmt args ({ d with precision := precision } : Directive).processPrecision pos ap
    else if ch = '*'.toUInt8 then
      let d := { d with precision := (args ap).word.toInt32 }
      reswitch fmt args d.processPrecision (pos + 1) (ap + 1)
    else if ch = '.'.toUInt8 then
      reswitch fmt args (if d.width < 0 then { d with width := 0 } else d) (pos + 1) ap
    else if ch = '#'.toUInt8 then
      reswitch fmt args { d with altflag := true } (pos + 1) ap
    else if ch = 'l'.toUInt8 then
      reswitch fmt args { d with lflag := d.lflag + 1 } (pos + 1) ap
    else .ok (ch, d, pos + 1, ap)
termination_by fmt.bytes.length + 1 - pos
decreasing_by all_goals
  have hpos := (List.getElem?_eq_some_iff.mp _h).1
  rw [List.length_append, List.length_singleton] at hpos
  first
  | omega
  | have hread := readPrecision_le _hread
    omega

/-- `for (fmt--; fmt[-1] != '%'; fmt--)` from the place behind `fmt--`. -/
def rewind (fmt : CString) : Nat → Except Fault Nat
  | 0 => .error .outside
  | pos + 1 =>
    match fmt.byteAt pos with
    | none => .error .outside
    | some ch => if ch = '%'.toUInt8 then .ok (pos + 1) else rewind fmt pos

section

variable {m : Type → Type} [Monad m]

/-- `strnlen`, where `nul` reads the byte at a pointer and tells whether it is the NUL. -/
def strnlenBy (nul : List UInt8 → m Bool) : List UInt8 → Nat → m Int32
  | _, 0 => return 0
  | [], _ + 1 => do
    let _ ← nul []
    return 0
  | c :: s, size + 1 => do
    if ← nul (c :: s) then return 0
    else
      let n ← strnlenBy nul s size
      return n + 1

/-- The loop of `%s` over the characters: what it prints, and the width left. -/
def putCharsBy (nul : List UInt8 → m Bool) :
    List UInt8 → Int32 → Int32 → Bool → m (List Int32 × Int32)
  | [], _, width, _ => do
    let _ ← nul []
    return ([], width)
  | c :: s, precision, width, altflag => do
    let ch := charToInt c
    let shown := if altflag ∧ (ch < charToInt ' '.toUInt8 ∨ charToInt '~'.toUInt8 < ch) then
      charToInt '?'.toUInt8 else ch
    if ← nul (c :: s) then return ([], width)
    else if precision < 0 then
      let (out, width) ← putCharsBy nul s precision (width - 1) altflag
      return (shown :: out, width)
    else if 0 ≤ precision - 1 then
      let (out, width) ← putCharsBy nul s (precision - 1) (width - 1) altflag
      return (shown :: out, width)
    else return ([], width)

/-- `if (width > 0 && padc != '-')`, pad before the characters: what is printed,
and the width left. -/
def putLeadBy (nul : List UInt8 → m Bool) (d : Directive) (s : List UInt8) :
    m (List Int32 × Int32) := do
  if 0 < d.width ∧ d.padc ≠ '-'.toUInt8 then
    let n ← strnlenBy nul s d.precision.toUInt32.toNat
    let width := d.width - n
    return (putPad width d.padc, if 0 < width then 0 else width)
  else return ([], d.width)

/-- The case `'s'` of the switch. -/
def putStringBy (nul : List UInt8 → m Bool) (d : Directive) (s : List UInt8) :
    m (List Int32) := do
  let (lead, width) ← putLeadBy nul d s
  let (chars, width) ← putCharsBy nul s d.precision width d.altflag
  return lead ++ chars ++ putPad width ' '.toUInt8

end

/-- The NUL stands behind the last byte of the list. -/
def nulBehind (s : List UInt8) : Id Bool := pure s.isEmpty

def strnlen (s : List UInt8) (size : Nat) : Int32 := Id.run (strnlenBy nulBehind s size)

def putChars (s : List UInt8) (precision width : Int32) (altflag : Bool) : List Int32 × Int32 :=
  Id.run (putCharsBy nulBehind s precision width altflag)

def putLead (d : Directive) (s : List UInt8) : List Int32 × Int32 :=
  Id.run (putLeadBy nulBehind d s)

def putString (d : Directive) (s : CString) : List Int32 :=
  Id.run (putStringBy nulBehind d s.bytes)

theorem strnlen_nil (size : Nat) : strnlen [] size = 0 := by
  cases size <;> rfl

theorem strnlen_cons (c : UInt8) (s : List UInt8) (size : Nat) :
    strnlen (c :: s) (size + 1) = strnlen s size + 1 := rfl

theorem putChars_nil (precision width : Int32) (altflag : Bool) :
    putChars [] precision width altflag = ([], width) := rfl

theorem putChars_cons (c : UInt8) (s : List UInt8) (precision width : Int32) (altflag : Bool) :
    putChars (c :: s) precision width altflag =
      let ch := charToInt c
      let shown := if altflag ∧ (ch < charToInt ' '.toUInt8 ∨ charToInt '~'.toUInt8 < ch) then
        charToInt '?'.toUInt8 else ch
      if precision < 0 then
        let (out, width) := putChars s precision (width - 1) altflag
        (shown :: out, width)
      else if 0 ≤ precision - 1 then
        let (out, width) := putChars s (precision - 1) (width - 1) altflag
        (shown :: out, width)
      else ([], width) := by
  unfold putChars
  rw [putCharsBy]
  change (if precision < 0 then _ else if _ then _ else _) = _
  split
  · rfl
  · split <;> rfl

theorem putLead_eq (d : Directive) (s : List UInt8) :
    putLead d s =
      if 0 < d.width ∧ d.padc ≠ '-'.toUInt8 then
        let width := d.width - strnlen s d.precision.toUInt32.toNat
        (putPad width d.padc, if 0 < width then 0 else width)
      else ([], d.width) := by
  unfold putLead putLeadBy
  split <;> rfl

theorem putString_eq (d : Directive) (s : CString) :
    putString d s =
      let (lead, width) := putLead d s.bytes
      let (chars, width) := putChars s.bytes d.precision width d.altflag
      lead ++ chars ++ putPad width ' '.toUInt8 := rfl

def maxError : Int32 := 7

/-- `error_string[err]`, the entries that are not NULL. The only negative `err`
that gets here is the least `int`: four times it is 0 in 32-bit address
arithmetic, so it reads entry 0. -/
def errorString (err : Int32) : Option CString :=
  if err = 1 then some (.lit "unspecified error")
  else if err = 2 then some (.lit "bad environment")
  else if err = 3 then some (.lit "invalid parameter")
  else if err = 4 then some (.lit "out of memory")
  else if err = 5 then some (.lit "out of environments")
  else if err = 6 then some (.lit "segmentation fault")
  else none

/-- Any address of a string: it is only compared with NULL. -/
def stringArg (s : CString) : VarArg := ⟨1, s⟩

/-- The arguments that `%e` passes to `printfmt`. -/
def errorMessage (err : Int32) : CString × Args :=
  let err := if err < 0 then -err else err
  match if maxError ≤ err then none else errorString err with
  | none => (.lit "error %d", fun _ => ⟨err.toUInt32, .lit ""⟩)
  | some p => (.lit "%s", fun _ => stringArg p)

/-- What the switch does once it has reached the letter of a conversion. -/
inductive Conversion where
  | put (out : List Int32) (ap : Nat)
  | printfmt (call : CString × Args) (ap : Nat)
  | unrecognized

def convert (ch : UInt8) (d : Directive) (args : Args) (ap : Nat) : Conversion :=
  if ch = 'c'.toUInt8 then .put [(args ap).word.toInt32] (ap + 1)
  else if ch = 'e'.toUInt8 then .printfmt (errorMessage (args ap).word.toInt32) (ap + 1)
  else if ch = 's'.toUInt8 then
    let s := if (args ap).word = 0 then .lit "(null)" else (args ap).str
    .put (putString d s) (ap + 1)
  else if ch = 'd'.toUInt8 then
    let (num, ap) := getint args ap d.lflag
    if num < 0 then
      .put (charToInt '-'.toUInt8 :: printnum (-num).toUInt64 .decimal d.width d.padc) ap
    else .put (printnum num.toUInt64 .decimal d.width d.padc) ap
  else if ch = 'u'.toUInt8 then
    let (num, ap) := getuint args ap d.lflag
    .put (printnum num .decimal d.width d.padc) ap
  else if ch = 'o'.toUInt8 then
    let (num, ap) := getuint args ap d.lflag
    .put (printnum num .octal d.width d.padc) ap
  else if ch = 'p'.toUInt8 then
    let num := (args ap).word.toUInt64
    .put (charToInt '0'.toUInt8 :: charToInt 'x'.toUInt8 ::
      printnum num .hexadecimal d.width d.padc) (ap + 1)
  else if ch = 'x'.toUInt8 then
    let (num, ap) := getuint args ap d.lflag
    .put (printnum num .hexadecimal d.width d.padc) ap
  else if ch = '%'.toUInt8 then .put [ucharToInt ch] ap
  else .unrecognized

/-- The main loop from the place `pos` of the format on. The nested `printfmt`
of `%e` spends the same fuel. -/
def vprintfmtFrom : Nat → CString → Args → Nat → Nat → Except Fault (List Int32)
  | 0, _, _, _, _ => .error .fuel
  | n + 1, fmt, args, pos, ap =>
    match fmt.byteAt pos with
    | none => .error .outside
    | some ch =>
      if ch = 0 then .ok []
      else if ch ≠ '%'.toUInt8 then do
        let out ← vprintfmtFrom n fmt args (pos + 1) ap
        return ucharToInt ch :: out
      else do
        let (ch, d, pos, ap) ← reswitch fmt args {} (pos + 1) ap
        match convert ch d args ap with
        | .put shown ap => do
          let out ← vprintfmtFrom n fmt args pos ap
          return shown ++ out
        | .printfmt call ap => do
          let shown ← vprintfmtFrom n call.1 call.2 0 0
          let out ← vprintfmtFrom n fmt args pos ap
          return shown ++ out
        | .unrecognized => do
          let pos ← rewind fmt (pos - 1)
          let out ← vprintfmtFrom n fmt args pos ap
          return ucharToInt '%'.toUInt8 :: out

def vprintfmt (fuel : Nat) (fmt : CString) (args : Args) : Except Fault (List Int32) :=
  vprintfmtFrom fuel fmt args 0 0

end Jos
