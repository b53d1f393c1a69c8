import Jos.PrintNum

/-!
The kernel's `sys_cputs` prints the user's bytes as a string of the format
`"%.*s"`. The bytes need no NUL behind them, and may have one among them.
-/

namespace Jos

def CString.nil : CString where
  bytes := []
  nonzero _ hc := absurd hc List.not_mem_nil

def CString.cons (c : UInt8) (hc : c ≠ 0) (s : CString) : CString where
  bytes := c :: s.bytes
  nonzero d hd := by
    rcases List.mem_cons.mp hd with rfl | hrest
    · exact hc
    · exact s.nonzero d hrest

/-- What the loop of `%s` reads of the memory that its pointer leads to. It
reads a byte before it looks at the precision, and memory ends where the next
byte cannot be read. -/
def stringRead : List UInt8 → Int32 → Except Fault CString
  | [], _ => .error .outside
  | c :: mem, precision =>
    if hc : c = 0 then .ok .nil
    else if precision < 0 then do
      let s ← stringRead mem precision
      return s.cons c hc
    else if 0 ≤ precision - 1 then do
      let s ← stringRead mem (precision - 1)
      return s.cons c hc
    else .ok .nil

/-- The arguments `len, s` of the call of `cprintf`. -/
def cputsArgs (s : UInt32) (str : CString) (len : UInt32) : Args
  | 0 => ⟨len, .lit ""⟩
  | _ => ⟨s, str⟩

/-- The string behind the pointer; of a NULL pointer nothing is read. -/
def cputsString (s : UInt32) (mem : List UInt8) (len : UInt32) : Except Fault CString :=
  if s = 0 then .ok .nil else stringRead mem len.toInt32

/-- `sys_cputs(s, len)` where `mem` is what can be read from `s` on: the
console it leaves. -/
def sysCputs (s : UInt32) (mem : List UInt8) (len : UInt32) (console : Console) :
    Except Fault Console := do
  let str ← cputsString s mem len
  let (_, console) ← cprintf (.lit "%.*s") (cputsArgs s str len) console
  return console

/-- The characters that this call of `cprintf` passes to `cputchar`. -/
def cputsShown (s : UInt32) (mem : List UInt8) (len : UInt32) : Except Fault (List Int32) := do
  let str ← cputsString s mem len
  formatted (.lit "%.*s") (cputsArgs s str len)

theorem sysCputs_run {s len : UInt32} {mem : List UInt8} {out : List Int32}
    (h : cputsShown s mem len = .ok out) (console : Console) :
    sysCputs s mem len console = .ok (console.cputchars (out.map Int32.toUInt32)) := by
  unfold cputsShown at h
  unfold sysCputs
  cases hstr : cputsString s mem len with
  | error e =>
    rw [hstr] at h
    cases h
  | ok str =>
    rw [hstr] at h
    change formatted (.lit "%.*s") (cputsArgs s str len) = .ok out at h
    change (do
      let (_, console) ← vcprintf (.lit "%.*s") (cputsArgs s str len) console
      return console) = _
    rw [vcprintf_run h]
    rfl

section

variable {fmt : CString} {args : Args} {d : Directive} {pos ap : Nat}

theorem reswitch_dot (hread : fmt.byteAt pos = some '.'.toUInt8) :
    reswitch fmt args d pos ap =
      reswitch fmt args (if d.width < 0 then { d with width := 0 } else d) (pos + 1) ap := by
  rw [reswitch]
  split
  · next hnone =>
    rw [hread] at hnone
    cases hnone
  · next c hsome =>
    rw [hread] at hsome
    obtain rfl := Option.some.inj hsome
    rfl

theorem reswitch_star (hread : fmt.byteAt pos = some '*'.toUInt8) :
    reswitch fmt args d pos ap = reswitch fmt args
      ({ d with precision := (args ap).word.toInt32 } : Directive).processPrecision
        (pos + 1) (ap + 1) := by
  rw [reswitch]
  split
  · next hnone =>
    rw [hread] at hnone
    cases hnone
  · next c hsome =>
    rw [hread] at hsome
    obtain rfl := Option.some.inj hsome
    rfl

end

/-- The dot leaves a width of 0 behind, so the length is the precision. -/
theorem formatted_cputs (s : UInt32) (str : CString) (len : UInt32) :
    formatted (.lit "%.*s") (cputsArgs s str len) =
      .ok (putString { width := 0, precision := len.toInt32 }
        (if s = 0 then .lit "(null)" else str)) := by
  have hfmt : OneDirective (.lit "%.*s") ['.'.toUInt8, '*'.toUInt8] 's'.toUInt8 := by
    unfold OneDirective
    decide
  have hletter : ¬ Modifier 's'.toUInt8 := by
    unfold Modifier
    decide
  have hdot : (CString.lit "%.*s").byteAt 1 = some '.'.toUInt8 := hfmt.mod_at rfl
  have hstar : (CString.lit "%.*s").byteAt 2 = some '*'.toUInt8 := hfmt.mod_at rfl
  have hparse : reswitch (.lit "%.*s") (cputsArgs s str len) {} 1 0 =
      .ok ('s'.toUInt8, { width := 0, precision := len.toInt32 }, 4, 1) := by
    rw [reswitch_dot hdot, reswitch_star hstar]
    exact reswitch_letter hfmt.letter_at hletter _ _ 1
  exact hfmt.formatted hparse rfl

/-- The characters of a string that a precision admits. -/
def admitted (precision : Int32) (bytes : List UInt8) : List UInt8 :=
  if precision < 0 then bytes else bytes.take precision.toNatClampNeg

theorem admitted_cons (precision : Int32) (c : UInt8) (bytes : List UInt8) :
    admitted precision (c :: bytes) =
      if precision < 0 then c :: admitted precision bytes
      else if 0 ≤ precision - 1 then c :: admitted (precision - 1) bytes
      else [] := by
  have hone : (1 : Int32).toInt = 1 := rfl
  have hzero : (0 : Int32).toInt = 0 := rfl
  by_cases hneg : precision < 0
  · simp only [admitted, hneg, if_true]
  · have hlow : ¬ precision.toInt < 0 := fun h => hneg (Int32.lt_iff_toInt_lt.mpr h)
    have hhigh := precision.toInt_lt
    have hstep : (precision - 1).toInt = precision.toInt - 1 := by
      rw [Int32.toInt_sub, hone]
      exact Int.bmod_eq_of_le (by omega) (by omega)
    rw [if_neg hneg]
    split
    · next hmore =>
      rw [Int32.le_iff_toInt_le, hzero, hstep] at hmore
      have hneg' : ¬ precision - 1 < 0 := by
        rw [Int32.lt_iff_toInt_lt, hzero, hstep]
        omega
      have hcount : precision.toNatClampNeg = (precision - 1).toNatClampNeg + 1 := by
        rw [← Int32.toNat_toInt, ← Int32.toNat_toInt, hstep]
        omega
      simp only [admitted, hneg, hneg', if_false, hcount, List.take_succ_cons]
    · next hspent =>
      rw [Int32.le_iff_toInt_le, hzero, hstep] at hspent
      have hcount : precision.toNatClampNeg = 0 := by
        rw [← Int32.toNat_toInt]
        omega
      simp [admitted, hneg, hcount]

theorem putChars_admitted (bytes : List UInt8) (precision width : Int32) :
    putChars bytes precision width false = ((admitted precision bytes).map charToInt,
      width - Int32.ofNat (admitted precision bytes).length) := by
  induction bytes generalizing precision width with
  | nil => simp [putChars_nil, admitted]
  | cons c bytes ih =>
    have hplain : ¬ (false = true ∧ (charToInt c < charToInt ' '.toUInt8 ∨
        charToInt '~'.toUInt8 < charToInt c)) := fun h => Bool.noConfusion h.1
    rw [putChars_cons, admitted_cons]
    simp only [hplain, if_false]
    split
    · rw [ih]
      simp only [List.map_cons, List.length_cons, sub_one_sub]
    · split
      · rw [ih]
        simp only [List.map_cons, List.length_cons, sub_one_sub]
      · simp

/-- Behind the characters the width has gone below 0, and from `2 ^ 31 + 1`
characters on it has wrapped. -/
theorem putString_admitted (precision : Int32) (str : CString) :
    putString { width := 0, precision := precision } str =
      (admitted precision str.bytes).map charToInt ++
        putPad (0 - Int32.ofNat (admitted precision str.bytes).length) ' '.toUInt8 := by
  have hlead : putLead { width := 0, precision := precision } str.bytes = ([], 0) := rfl
  rw [putString_eq, hlead]
  dsimp only
  rw [putChars_admitted, List.nil_append]

theorem charToInt_low (c : UInt8) : (charToInt c).toUInt32.toUInt8 = c := by
  apply UInt8.toBitVec_inj.mp
  change BitVec.setWidth 8 (BitVec.signExtend 32 c.toBitVec) = c.toBitVec
  ext i hi
  have hwide : i < 32 := by omega
  simp [BitVec.getElem_signExtend, hi, hwide]

theorem toInt_width (k : Nat) : (0 - Int32.ofNat k).toInt = (-(k : Int)).bmod (2 ^ 32) := by
  have hzero : (0 : Int32) = Int32.ofInt 0 := rfl
  rw [← Int32.ofInt_eq_ofNat, hzero, ← Int32.ofInt_sub, Int32.toInt_ofInt, zero_sub]
  rfl

theorem putPad_short {k : Nat} (hk : k ≤ 2 ^ 31) (padc : UInt8) :
    putPad (0 - Int32.ofNat k) padc = [] := by
  have hzero : (0 : Int32).toInt = 0 := rfl
  rw [putPad_eq_nil_iff, Int32.le_iff_toInt_le, toInt_width, hzero,
    Int.bmod_eq_of_le (by omega) (by omega)]
  omega

/-- With the padding of a wrapped width the output fills at least `2 ^ 32`
places. -/
theorem putPad_long {k : Nat} (hk : 2 ^ 31 < k) (padc : UInt8) :
    2 ^ 32 ≤ k + (putPad (0 - Int32.ofNat k) padc).length := by
  rcases Nat.lt_or_ge k (2 ^ 32) with hlt | hge
  · have hwrap : (-(k : Int)).bmod (2 ^ 32) = 2 ^ 32 - k := by
      rw [← Int.add_bmod_right, Int.bmod_eq_of_le (by omega) (by omega)]
      omega
    unfold putPad
    rw [List.length_replicate, ← Int32.toNat_toInt, toInt_width, hwrap]
    omega
  · omega

section

variable {mem : List UInt8} {precision : Int32}

theorem stringRead_unbounded (hneg : precision < 0) (hnul : (0 : UInt8) ∈ mem) :
    ∃ str, stringRead mem precision = .ok str ∧ str.bytes = mem.takeWhile (fun c => c ≠ 0) := by
  induction mem with
  | nil => exact absurd hnul List.not_mem_nil
  | cons c mem ih =>
    rw [stringRead]
    by_cases hc : c = 0
    · rw [dif_pos hc]
      exact ⟨.nil, rfl, by simp [CString.nil, hc]⟩
    · have hrest : (0 : UInt8) ∈ mem := by
        rcases List.mem_cons.mp hnul with heq | hin
        · exact absurd heq.symm hc
        · exact hin
      obtain ⟨str, hrun, hbytes⟩ := ih hrest
      rw [dif_neg hc, if_pos hneg, hrun]
      exact ⟨str.cons c hc, rfl, by simp [CString.cons, hc, hbytes]⟩

theorem stringRead_endless (hneg : precision < 0) (hnul : (0 : UInt8) ∉ mem) :
    stringRead mem precision = .error .outside := by
  induction mem with
  | nil => rfl
  | cons c mem ih =>
    have hc : c ≠ 0 := fun heq => hnul (heq ▸ List.mem_cons_self)
    rw [stringRead, dif_neg hc, if_pos hneg, ih (fun h => hnul (List.mem_cons_of_mem c h))]
    rfl

end

theorem ofNat_not_neg {n : Nat} (hn : n < 2 ^ 31) : ¬ Int32.ofNat n < 0 := by
  have hzero : (0 : Int32).toInt = 0 := rfl
  rw [Int32.lt_iff_toInt_lt, Int32.toInt_ofNat_of_lt hn, hzero]
  omega

theorem ofNat_succ_sub_one (n : Nat) : Int32.ofNat (n + 1) - 1 = Int32.ofNat n := by
  have hone : Int32.ofNat 1 = 1 := rfl
  rw [Int32.ofNat_add, hone, Int32.add_sub_cancel]

/-- Of `n` bytes the loop reads one more, unless a NUL comes before it. -/
theorem stringRead_counted (mem : List UInt8) {n : Nat} (hn : n < 2 ^ 31)
    (hread : n < mem.length ∨ (0 : UInt8) ∈ mem) :
    ∃ str, stringRead mem (Int32.ofNat n) = .ok str ∧
      str.bytes = (mem.take n).takeWhile (fun c => c ≠ 0) := by
  induction mem generalizing n with
  | nil =>
    rcases hread with hlt | hin
    · exact absurd hlt (Nat.not_lt_zero n)
    · exact absurd hin List.not_mem_nil
  | cons c mem ih =>
    have hneg := ofNat_not_neg hn
    rw [stringRead]
    by_cases hc : c = 0
    · rw [dif_pos hc]
      refine ⟨.nil, rfl, ?_⟩
      cases n <;> simp [CString.nil, hc]
    · rw [dif_neg hc, if_neg hneg]
      cases n with
      | zero =>
        have hspent : ¬ 0 ≤ Int32.ofNat 0 - 1 := by decide
        rw [if_neg hspent]
        exact ⟨.nil, rfl, rfl⟩
      | succ n =>
        have hmore : 0 ≤ Int32.ofNat (n + 1) - 1 := by
          rw [ofNat_succ_sub_one]
          exact Int32.not_lt.mp (ofNat_not_neg (by omega))
        have hrest : n < mem.length ∨ (0 : UInt8) ∈ mem := by
          rcases hread with hlt | hin
          · exact .inl (by simpa using hlt)
          · rcases List.mem_cons.mp hin with heq | hin
            · exact absurd heq.symm hc
            · exact .inr hin
        obtain ⟨str, hrun, hbytes⟩ := ih (by omega) hrest
        rw [if_pos hmore, ofNat_succ_sub_one, hrun]
        exact ⟨str.cons c hc, rfl, by simp [CString.cons, hc, hbytes]⟩

theorem stringRead_past (mem : List UInt8) (hlength : mem.length < 2 ^ 31)
    (hnul : (0 : UInt8) ∉ mem) :
    stringRead mem (Int32.ofNat mem.length) = .error .outside := by
  induction mem with
  | nil => rfl
  | cons c mem ih =>
    have hc : c ≠ 0 := fun heq => hnul (heq ▸ List.mem_cons_self)
    have hneg := ofNat_not_neg hlength
    rw [List.length_cons] at hlength hneg
    have hmore : 0 ≤ Int32.ofNat (mem.length + 1) - 1 := by
      rw [ofNat_succ_sub_one]
      exact Int32.not_lt.mp (ofNat_not_neg (by omega))
    rw [stringRead, dif_neg hc, List.length_cons, if_neg hneg, if_pos hmore, ofNat_succ_sub_one,
      ih (by omega) (fun h => hnul (List.mem_cons_of_mem c h))]
    rfl

/-- `sys_cputs` passes the `len` bytes at `s` to `cputchar` and nothing else. -/
def SendsExactly (s len : UInt32) (mem : List UInt8) : Prop :=
  ∃ out, cputsShown s mem len = .ok out ∧
    (∀ console, sysCputs s mem len console =
      .ok (console.cputchars (out.map Int32.toUInt32))) ∧
    out.map (fun ch => ch.toUInt32.toUInt8) = mem.take len.toNat

/-- The bytes survive as a C string: none is NUL, and the byte behind them can
be read. With the sign bit of the length set there is no precision, and only
`2 ^ 31` bytes with a NUL behind them come out right. Behind a NULL pointer
there have to be the first characters of the text that stands for it. -/
def StringSafe (s len : UInt32) (mem : List UInt8) : Prop :=
  if s = 0 then mem.take len.toNat <+: (CString.lit "(null)").bytes
  else (∀ c ∈ mem.take len.toNat, c ≠ 0) ∧
    ((len.toNat < 2 ^ 31 ∧ len.toNat < mem.length) ∨
      (len.toNat = 2 ^ 31 ∧ mem[len.toNat]? = some 0))

theorem sendsExactly_of_shown {s len : UInt32} {mem : List UInt8} {out : List Int32}
    (h : cputsShown s mem len = .ok out) :
    SendsExactly s len mem ↔ out.map (fun ch => ch.toUInt32.toUInt8) = mem.take len.toNat := by
  constructor
  · rintro ⟨out', hshown, -, hbytes⟩
    rw [h] at hshown
    obtain rfl := Except.ok.inj hshown
    exact hbytes
  · exact fun hbytes => ⟨out, h, fun console => sysCputs_run h console, hbytes⟩

theorem bytes_of_shown (bytes : List UInt8) (k : Nat) (padc : UInt8) :
    (bytes.map charToInt ++ putPad (0 - Int32.ofNat k) padc).map
        (fun ch => ch.toUInt32.toUInt8) =
      bytes ++ (putPad (0 - Int32.ofNat k) padc).map (fun ch => ch.toUInt32.toUInt8) := by
  rw [List.map_append, List.map_map]
  have hlow : (fun ch : Int32 => ch.toUInt32.toUInt8) ∘ charToInt = id := funext charToInt_low
  rw [hlow, List.map_id]

section

variable {s len : UInt32} {mem : List UInt8} {str : CString}

theorem cputsShown_of_string (hstr : cputsString s mem len = .ok str) :
    cputsShown s mem len = .ok (putString { width := 0, precision := len.toInt32 }
      (if s = 0 then .lit "(null)" else str)) := by
  unfold cputsShown
  rw [hstr]
  exact formatted_cputs s str len

/-- The bytes of the output: those that the precision admits, and the padding of
a wrapped width. -/
theorem sendsExactly_iff_bytes (hstr : cputsString s mem len = .ok str) {bytes : List UInt8}
    (hbytes : admitted len.toInt32 (if s = 0 then CString.lit "(null)" else str).bytes = bytes) :
    SendsExactly s len mem ↔
      bytes ++ (putPad (0 - Int32.ofNat bytes.length) ' '.toUInt8).map
        (fun ch => ch.toUInt32.toUInt8) = mem.take len.toNat := by
  have hshown := cputsShown_of_string hstr
  rw [putString_admitted, hbytes] at hshown
  rw [sendsExactly_of_shown hshown, bytes_of_shown]

theorem not_sendsExactly_of_error {e : Fault} (hstr : cputsString s mem len = .error e) :
    ¬ SendsExactly s len mem := by
  rintro ⟨out, hshown, -⟩
  unfold cputsShown at hshown
  rw [hstr] at hshown
  cases hshown

/-- Up to `2 ^ 31` characters leave no padding, so the bytes themselves have to
be the ones asked for. -/
theorem sendsExactly_iff_short (hstr : cputsString s mem len = .ok str) {bytes : List UInt8}
    (hbytes : admitted len.toInt32 (if s = 0 then CString.lit "(null)" else str).bytes = bytes)
    (hshort : bytes.length ≤ 2 ^ 31) : SendsExactly s len mem ↔ bytes = mem.take len.toNat := by
  rw [sendsExactly_iff_bytes hstr hbytes, putPad_short hshort, List.map_nil, List.append_nil]

theorem not_sendsExactly_of_long (hstr : cputsString s mem len = .ok str) {bytes : List UInt8}
    (hbytes : admitted len.toInt32 (if s = 0 then CString.lit "(null)" else str).bytes = bytes)
    (hlong : 2 ^ 31 < bytes.length) : ¬ SendsExactly s len mem := by
  rw [sendsExactly_iff_bytes hstr hbytes]
  intro hexact
  have hlength := congrArg List.length hexact
  rw [List.length_append, List.length_map, List.length_take] at hlength
  have hfill := putPad_long hlong ' '.toUInt8
  have hlen := len.toNat_lt
  omega

end

section

variable {len : UInt32}

theorem admitted_of_small (h : len.toNat < 2 ^ 31) (bytes : List UInt8) :
    admitted len.toInt32 bytes = bytes.take len.toNat := by
  have hneg := ofNat_not_neg h
  have hcount : (Int32.ofNat len.toNat).toNatClampNeg = len.toNat := by
    rw [← Int32.toNat_toInt, Int32.toInt_ofNat_of_lt h]
    omega
  rw [← ofNat_toNat, admitted, if_neg hneg, hcount]

theorem neg_of_large (h : 2 ^ 31 ≤ len.toNat) : len.toInt32 < 0 := by
  have hzero : (0 : Int32).toInt = 0 := rfl
  have hlt := len.toNat_lt
  have hwrap : ((len.toNat : Nat) : Int).bmod (2 ^ 32) = len.toNat - 2 ^ 32 := by
    rw [← Int.sub_bmod_right, Int.bmod_eq_of_le (by omega) (by omega)]
    omega
  have hsize : Int32.size = 2 ^ 32 := rfl
  rw [← ofNat_toNat, ← Int32.ofInt_eq_ofNat, Int32.lt_iff_toInt_lt, Int32.toInt_ofInt, hzero,
    hsize, hwrap]
  omega

theorem admitted_of_large (h : 2 ^ 31 ≤ len.toNat) (bytes : List UInt8) :
    admitted len.toInt32 bytes = bytes := by
  rw [admitted, if_pos (neg_of_large h)]

end

theorem takeWhile_eq_take {mem : List UInt8} {n : Nat} (hplain : ∀ c ∈ mem.take n, c ≠ 0)
    (hnul : mem[n]? = some 0) : mem.takeWhile (fun c => c ≠ 0) = mem.take n := by
  obtain ⟨hlt, hget⟩ := List.getElem?_eq_some_iff.mp hnul
  have hsplit : mem = mem.take n ++ 0 :: mem.drop (n + 1) := by
    conv_lhs => rw [← List.take_append_drop n mem, List.drop_eq_getElem_cons hlt, hget]
  have hpos : ∀ c ∈ mem.take n, decide (c ≠ 0) = true :=
    fun c hc => decide_eq_true (hplain c hc)
  conv_lhs => rw [hsplit, List.takeWhile_append_of_pos hpos]
  simp

theorem nul_behind_takeWhile {mem : List UInt8} (hnul : (0 : UInt8) ∈ mem) :
    mem[(mem.takeWhile (fun c => c ≠ 0)).length]? = some 0 := by
  induction mem with
  | nil => exact absurd hnul List.not_mem_nil
  | cons c mem ih =>
    by_cases hc : c = 0
    · simp [hc]
    · have hrest : (0 : UInt8) ∈ mem := by
        rcases List.mem_cons.mp hnul with heq | hin
        · exact absurd heq.symm hc
        · exact hin
      simpa [hc] using ih hrest

theorem plain_of_takeWhile {mem bytes : List UInt8}
    (h : mem.takeWhile (fun c => c ≠ 0) = bytes) : ∀ c ∈ bytes, c ≠ 0 := by
  intro c hc
  rw [← h] at hc
  simpa using List.mem_takeWhile_imp hc

section

variable {s len : UInt32} {mem : List UInt8}

theorem null_exact_iff (hs : s = 0) (hmem : len.toNat ≤ mem.length) :
    SendsExactly s len mem ↔ mem.take len.toNat <+: (CString.lit "(null)").bytes := by
  have hstr : cputsString s mem len = .ok .nil := if_pos hs
  have hsix : (CString.lit "(null)").bytes.length = 6 := by decide
  have hasked : (mem.take len.toNat).length = len.toNat := by
    rw [List.length_take]
    omega
  rcases Nat.lt_or_ge len.toNat (2 ^ 31) with hsmall | hlarge
  · have hbytes : admitted len.toInt32 (if s = 0 then CString.lit "(null)" else .nil).bytes =
        (CString.lit "(null)").bytes.take len.toNat := by
      rw [if_pos hs, admitted_of_small hsmall]
    rw [sendsExactly_iff_short hstr hbytes (by rw [List.length_take]; omega)]
    constructor
    · intro h
      rw [← h]
      exact List.take_prefix _ _
    · intro h
      have htake := List.prefix_iff_eq_take.mp h
      rw [hasked] at htake
      exact htake.symm
  · have hbytes : admitted len.toInt32 (if s = 0 then CString.lit "(null)" else .nil).bytes =
        (CString.lit "(null)").bytes := by
      rw [if_pos hs, admitted_of_large hlarge]
    rw [sendsExactly_iff_short hstr hbytes (by omega)]
    constructor
    · intro h
      have hlength := congrArg List.length h
      omega
    · intro h
      have hlength := h.length_le
      omega

theorem counted_exact_iff (hs : s ≠ 0) (hmem : len.toNat ≤ mem.length)
    (hsmall : len.toNat < 2 ^ 31) :
    SendsExactly s len mem ↔ (∀ c ∈ mem.take len.toNat, c ≠ 0) ∧ len.toNat < mem.length := by
  have hread : cputsString s mem len = stringRead mem (Int32.ofNat len.toNat) := by
    rw [ofNat_toNat]
    exact if_neg hs
  by_cases hend : len.toNat < mem.length ∨ (0 : UInt8) ∈ mem
  · obtain ⟨str, hrun, hstr⟩ := stringRead_counted mem hsmall hend
    have hlength : str.bytes.length ≤ len.toNat := by
      rw [hstr]
      exact le_trans (List.takeWhile_prefix _).length_le (List.length_take_le _ _)
    have hbytes : admitted len.toInt32 (if s = 0 then CString.lit "(null)" else str).bytes =
        str.bytes := by
      rw [if_neg hs, admitted_of_small hsmall, List.take_of_length_le hlength]
    rw [sendsExactly_iff_short (hread.trans hrun) hbytes (by omega), hstr,
      List.takeWhile_eq_self_iff]
    constructor
    · intro h
      have hplain : ∀ c ∈ mem.take len.toNat, c ≠ 0 := fun c hc => by simpa using h c hc
      refine ⟨hplain, ?_⟩
      rcases hend with hlt | hin
      · exact hlt
      · by_contra hge
        rw [List.take_of_length_le (by omega)] at hplain
        exact hplain 0 hin rfl
    · rintro ⟨hplain, -⟩ c hc
      exact decide_eq_true (hplain c hc)
  · rw [not_or] at hend
    obtain ⟨hge, hnul⟩ := hend
    have hexact : mem.length = len.toNat := by omega
    have herror := stringRead_past mem (by omega) hnul
    rw [hexact] at herror
    constructor
    · exact fun h => absurd h (not_sendsExactly_of_error (hread.trans herror))
    · exact fun h => absurd h.2 hge

theorem unbounded_exact_iff (hs : s ≠ 0) (hmem : len.toNat ≤ mem.length)
    (hlarge : 2 ^ 31 ≤ len.toNat) :
    SendsExactly s len mem ↔ (∀ c ∈ mem.take len.toNat, c ≠ 0) ∧
      len.toNat = 2 ^ 31 ∧ mem[len.toNat]? = some 0 := by
  have hread : cputsString s mem len = stringRead mem len.toInt32 := if_neg hs
  have hneg := neg_of_large hlarge
  by_cases hnul : (0 : UInt8) ∈ mem
  · obtain ⟨str, hrun, hstr⟩ := stringRead_unbounded hneg hnul
    have hbytes : admitted len.toInt32 (if s = 0 then CString.lit "(null)" else str).bytes =
        str.bytes := by
      rw [if_neg hs, admitted_of_large hlarge]
    rcases Nat.lt_or_ge (2 ^ 31) str.bytes.length with hlong | hshort
    · constructor
      · exact fun h => absurd h (not_sendsExactly_of_long (hread.trans hrun) hbytes hlong)
      · rintro ⟨hplain, hlen, hend⟩
        have htake := takeWhile_eq_take hplain hend
        rw [← hstr] at htake
        have hlength := congrArg List.length htake
        rw [List.length_take] at hlength
        omega
    · rw [sendsExactly_iff_short (hread.trans hrun) hbytes hshort]
      constructor
      · intro h
        have hlength := congrArg List.length h
        rw [List.length_take, Nat.min_eq_left hmem] at hlength
        have hwhile := hstr.symm.trans h
        have hend := nul_behind_takeWhile hnul
        rw [← hstr, hlength] at hend
        exact ⟨plain_of_takeWhile hwhile, by omega, hend⟩
      · rintro ⟨hplain, -, hend⟩
        rw [hstr, takeWhile_eq_take hplain hend]
  · have herror := stringRead_endless hneg hnul
    constructor
    · exact fun h => absurd h (not_sendsExactly_of_error (hread.trans herror))
    · rintro ⟨-, -, hend⟩
      exact absurd (List.mem_of_getElem? hend) hnul

end

/-- `sys_cputs` sends exactly the bytes it was given precisely when they do as
a C string. -/
theorem cputs_exact_iff (s len : UInt32) (mem : List UInt8) (hmem : len.toNat ≤ mem.length) :
    SendsExactly s len mem ↔ StringSafe s len mem := by
  unfold StringSafe
  by_cases hs : s = 0
  · rw [if_pos hs]
    exact null_exact_iff hs hmem
  · rw [if_neg hs]
    rcases Nat.lt_or_ge len.toNat (2 ^ 31) with hsmall | hlarge
    · rw [counted_exact_iff hs hmem hsmall]
      constructor
      · rintro ⟨hplain, hlt⟩
        exact ⟨hplain, .inl ⟨hsmall, hlt⟩⟩
      · rintro ⟨hplain, ⟨-, hlt⟩ | ⟨hlen, -⟩⟩
        · exact ⟨hplain, hlt⟩
        · omega
    · rw [unbounded_exact_iff hs hmem hlarge]
      constructor
      · rintro ⟨hplain, hlen, hend⟩
        exact ⟨hplain, .inr ⟨hlen, hend⟩⟩
      · rintro ⟨hplain, ⟨hlt, -⟩ | hend⟩
        · omega
        · exact ⟨hplain, hend⟩

theorem cputs_exact_iff_letter :
    (3 : UInt32).toNat ≤ ([0x61, 0x62, 0x63, 0x64] : List UInt8).length ∧
      (SendsExactly 0x800000 3 [0x61, 0x62, 0x63, 0x64] ↔
        StringSafe 0x800000 3 [0x61, 0x62, 0x63, 0x64]) :=
  ⟨by decide, cputs_exact_iff 0x800000 3 [0x61, 0x62, 0x63, 0x64] (by decide)⟩

/-- A user program prints one NUL with `%c`. The payload that it collects for
`sys_cputs` is that byte, and nothing reaches the console. -/
theorem nul_is_lost :
    userVcprintf (.lit "%c") (fun _ => ⟨0, .lit ""⟩) (fun _ => 0) = .ok (1, [[0]]) ∧
      cputsShown 0x800000 [0, 0] 1 = .ok [] ∧ ¬ SendsExactly 0x800000 1 [0, 0] := by
  have hletter : ¬ Modifier 'c'.toUInt8 := by
    unfold Modifier
    decide
  have hfmt := literal_directive 'c' (by decide)
  have hout : formatted (.lit "%c") (fun _ => ⟨0, .lit ""⟩) = .ok [0] :=
    hfmt.formatted (reswitch_letter hfmt.letter_at hletter _ {} 0) rfl
  have hstr : cputsString 0x800000 [0, 0] 1 = .ok .nil := rfl
  have hshown : cputsShown 0x800000 [0, 0] 1 = .ok [] := cputsShown_of_string hstr
  refine ⟨?_, hshown, ?_⟩
  · unfold userVcprintf
    rw [hout]
    rfl
  · rw [sendsExactly_of_shown hshown]
    decide

end Jos
