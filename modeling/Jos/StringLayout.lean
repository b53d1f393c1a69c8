import Jos.Directives

/-!
How `%s` fills a field, and what it reads. The width is counted down past zero while the
characters are printed, so it can wrap for very long strings.
-/

namespace Jos

/-- Only the bytes of the list can be read. -/
def nulAt : List UInt8 → Except Fault Bool
  | [] => .error .outside
  | c :: _ => .ok (decide (c = 0))

/-- The case `'s'` of the switch, where only `mem` can be read behind the pointer. -/
def putStringAt (d : Directive) (mem : List UInt8) : Except Fault (List Int32) :=
  putStringBy nulAt d mem

/-- A character as `#` lets it through. -/
def shownChar (altflag : Bool) (c : UInt8) : UInt8 :=
  if altflag ∧ ¬ (' '.toUInt8 ≤ c ∧ c ≤ '~'.toUInt8) then '?'.toUInt8 else c

section

variable {s : CString} {bytes mem : List UInt8} {precision width : Int32} {altflag : Bool}
  {d : Directive} {n : Nat}

theorem shownChar_eq (altflag : Bool) (c : UInt8) :
    (if altflag ∧ (charToInt c < charToInt ' '.toUInt8 ∨ charToInt '~'.toUInt8 < charToInt c) then
      charToInt '?'.toUInt8 else charToInt c) = charToInt (shownChar altflag c) := by
  have hall : ∀ n < 256, (charToInt n.toUInt8 < charToInt ' '.toUInt8 ∨
      charToInt '~'.toUInt8 < charToInt n.toUInt8) ↔
      ¬ (' '.toUInt8 ≤ n.toUInt8 ∧ n.toUInt8 ≤ '~'.toUInt8) := by decide +kernel
  have hc := hall c.toNat c.toNat_lt
  simp only [Nat.toUInt8_eq, UInt8.ofNat_toNat] at hc
  unfold shownChar
  simp only [hc]
  split <;> rfl

/-- With `#` the loop prints other characters, one for one. -/
theorem putChars_shown (bytes : List UInt8) (precision width : Int32) (altflag : Bool) :
    putChars bytes precision width altflag =
      putChars (bytes.map (shownChar altflag)) precision width false := by
  induction bytes generalizing precision width with
  | nil => rfl
  | cons c bytes ih =>
    have hplain : ∀ c, ¬ (false = true ∧ (charToInt c < charToInt ' '.toUInt8 ∨
        charToInt '~'.toUInt8 < charToInt c)) := fun _ h => Bool.noConfusion h.1
    rw [List.map_cons, putChars_cons, putChars_cons]
    dsimp only
    rw [shownChar_eq, if_neg (hplain _), ih, ih]

theorem admitted_map (f : UInt8 → UInt8) (precision : Int32) (bytes : List UInt8) :
    admitted precision (bytes.map f) = (admitted precision bytes).map f := by
  unfold admitted
  split
  · rfl
  · rw [List.map_take]

theorem putChars_eq (bytes : List UInt8) (precision width : Int32) (altflag : Bool) :
    putChars bytes precision width altflag =
      (((admitted precision bytes).map (shownChar altflag)).map charToInt,
        width - Int32.ofNat (admitted precision bytes).length) := by
  rw [putChars_shown, putChars_admitted, admitted_map, List.length_map]

theorem strnlen_eq (bytes : List UInt8) (size : Nat) :
    strnlen bytes size = Int32.ofNat (min bytes.length size) := by
  induction bytes generalizing size with
  | nil =>
    rw [List.length_nil, Nat.zero_min, strnlen_nil]
    rfl
  | cons c bytes ih =>
    cases size with
    | zero => rfl
    | succ size =>
      have hone : Int32.ofNat 1 = 1 := rfl
      rw [strnlen_cons, ih, List.length_cons, Nat.add_min_add_right, Int32.ofNat_add, hone]

theorem nulAt_cons {c : UInt8} (hc : c ≠ 0) (mem : List UInt8) : nulAt (c :: mem) = .ok false :=
  congrArg Except.ok (decide_eq_false hc)

theorem strnlenAt_run (hnonzero : ∀ c ∈ bytes, c ≠ 0) {size : Nat}
    (hn : min bytes.length size ≤ n) :
    strnlenBy nulAt ((bytes ++ [0]).take (n + 1)) size = .ok (strnlen bytes size) := by
  induction bytes generalizing size n with
  | nil => cases size <;> rfl
  | cons c bytes ih =>
    cases size with
    | zero =>
      rw [strnlenBy]
      rfl
    | succ size =>
      have hc := hnonzero c List.mem_cons_self
      rw [List.length_cons, Nat.add_min_add_right] at hn
      obtain ⟨m, rfl⟩ : ∃ m, n = m + 1 := ⟨n - 1, by omega⟩
      rw [List.cons_append, List.take_succ_cons, strnlenBy, nulAt_cons hc,
        ih (fun e he => hnonzero e (List.mem_cons_of_mem c he)) (by omega)]
      rfl

/-- The loop reads the characters that it prints, and one byte more. -/
theorem putCharsAt_run (hnonzero : ∀ c ∈ bytes, c ≠ 0) (precision width : Int32) (altflag : Bool)
    (hn : (putChars bytes precision width altflag).1.length ≤ n) :
    putCharsBy nulAt ((bytes ++ [0]).take (n + 1)) precision width altflag =
      .ok (putChars bytes precision width altflag) := by
  induction bytes generalizing precision width n with
  | nil => rfl
  | cons c bytes ih =>
    have hc := hnonzero c List.mem_cons_self
    have hrest : ∀ e ∈ bytes, e ≠ 0 := fun e he => hnonzero e (List.mem_cons_of_mem c he)
    rw [putChars_cons] at hn
    rw [List.cons_append, List.take_succ_cons, putCharsBy, nulAt_cons hc, putChars_cons]
    dsimp only at hn ⊢
    change (if precision < 0 then _ else if _ then _ else _) = _
    by_cases hneg : precision < 0
    · rw [if_pos hneg, List.length_cons] at hn
      obtain ⟨m, rfl⟩ : ∃ m, n = m + 1 := ⟨n - 1, by omega⟩
      rw [if_pos hneg, if_pos hneg, ih hrest precision (width - 1) (by omega)]
      rfl
    rw [if_neg hneg] at hn
    rw [if_neg hneg, if_neg hneg]
    by_cases hmore : 0 ≤ precision - 1
    · rw [if_pos hmore, List.length_cons] at hn
      obtain ⟨m, rfl⟩ : ∃ m, n = m + 1 := ⟨n - 1, by omega⟩
      rw [if_pos hmore, if_pos hmore, ih hrest (precision - 1) (width - 1) (by omega)]
      rfl
    · rw [if_neg hmore, if_neg hmore]
      rfl

theorem putLeadAt_run (d : Directive) (hnonzero : ∀ c ∈ bytes, c ≠ 0)
    (hsize : min bytes.length d.precision.toUInt32.toNat ≤ n) :
    putLeadBy nulAt d ((bytes ++ [0]).take (n + 1)) = .ok (putLead d bytes) := by
  unfold putLeadBy
  rw [putLead_eq, strnlenAt_run hnonzero hsize]
  split <;> rfl

theorem putStringAt_run (d : Directive) (s : CString)
    (hn : (admitted d.precision s.bytes).length ≤ n)
    (hsize : min s.bytes.length d.precision.toUInt32.toNat ≤ n) :
    putStringAt d ((s.bytes ++ [0]).take (n + 1)) = .ok (putString d s) := by
  have hchars : ∀ width, putCharsBy nulAt ((s.bytes ++ [0]).take (n + 1)) d.precision width
      d.altflag = .ok (putChars s.bytes d.precision width d.altflag) := by
    intro width
    apply putCharsAt_run s.nonzero
    rw [putChars_eq]
    simpa using hn
  unfold putStringAt putStringBy
  rw [putLeadAt_run d s.nonzero hsize, putString_eq]
  change (putCharsBy nulAt _ _ _ _ >>= _) = _
  rw [hchars]
  rfl

end

/-- The blanks, or zeros, that are missing to a width, on the side that `padc` asks for. -/
def filled (padc : UInt8) (width : Nat) (text : List UInt8) : List UInt8 :=
  if padc = '-'.toUInt8 then text ++ List.replicate (width - text.length) ' '.toUInt8
  else List.replicate (width - text.length) padc ++ text

/-- The characters that a directive shows of a string. -/
def shownChars (d : Directive) (s : CString) : List UInt8 :=
  (admitted d.precision s.bytes).map (shownChar d.altflag)

/-- The count of the characters does not carry the width, or what is left of it, around. -/
def WidthHolds (d : Directive) (n : Nat) : Prop :=
  if 0 < d.width ∧ d.padc ≠ '-'.toUInt8 then
    (2 * n : Int) ≤ d.width.toInt + 2 ^ 31 ∨
      ((n : Int) ≤ d.width.toInt + 2 ^ 31 ∧ d.width.toInt + 2 ^ 32 ≤ 2 * n)
  else (n : Int) ≤ d.width.toInt + 2 ^ 31

instance (d : Directive) (n : Nat) : Decidable (WidthHolds d n) := by
  unfold WidthHolds
  infer_instance

section

variable {s : CString} {d : Directive} {n : Nat} {width : Int32}

/-- A counter that is counted down by `n` is off by whole turns only. -/
theorem toInt_sub_ofNat (width : Int32) (n : Nat) :
    ∃ k : Int, (width - Int32.ofNat n).toInt = width.toInt - n + 2 ^ 32 * k := by
  have hsize : Int32.size = 2 ^ 32 := rfl
  have hcount := Int.bmod_add_bdiv n (2 ^ 32)
  have hdiff := Int.bmod_add_bdiv (width.toInt - (n : Int).bmod (2 ^ 32)) (2 ^ 32)
  refine ⟨(n : Int).bdiv (2 ^ 32) - (width.toInt - (n : Int).bmod (2 ^ 32)).bdiv (2 ^ 32), ?_⟩
  rw [Int32.toInt_sub, ← Int32.ofInt_eq_ofNat, Int32.toInt_ofInt, hsize]
  omega

theorem putPad_bytes (n : Int32) (padc : UInt8) :
    putPad n padc = (List.replicate n.toInt.toNat padc).map charToInt := by
  unfold putPad
  rw [List.map_replicate, Int32.toNat_toInt]

/-- What is left of the width behind the characters is blanks. -/
theorem right_count (hn : n < 2 ^ 32 - 1) (hlow : -1 ≤ width.toInt) :
    (width - Int32.ofNat n).toInt.toNat = width.toInt.toNat - n ↔
      (n : Int) ≤ width.toInt + 2 ^ 31 := by
  obtain ⟨k, hk⟩ := toInt_sub_ofNat width n
  have hlo := (width - Int32.ofNat n).le_toInt
  have hhi := (width - Int32.ofNat n).toInt_lt
  have hwidth := width.toInt_lt
  omega

/-- Padding first leaves a width of 0, or what the string is longer by; then the characters are
counted once more. -/
theorem left_count (hn : n < 2 ^ 32 - 1) (hpos : 0 < width.toInt) :
    let left := width - Int32.ofNat n
    let rest := (if 0 < left then 0 else left) - Int32.ofNat n
    let holds := (2 * n : Int) ≤ width.toInt + 2 ^ 31 ∨
      ((n : Int) ≤ width.toInt + 2 ^ 31 ∧ width.toInt + 2 ^ 32 ≤ 2 * n)
    (left.toInt.toNat + rest.toInt.toNat = width.toInt.toNat - n → holds) ∧
      (holds → left.toInt.toNat = width.toInt.toNat - n ∧ rest.toInt.toNat = 0) := by
  intro left rest holds
  have hzero : (0 : Int32).toInt = 0 := rfl
  obtain ⟨k, hk⟩ := toInt_sub_ofNat width n
  obtain ⟨j, hj⟩ := toInt_sub_ofNat (if 0 < left then 0 else left) n
  have hleft : (if 0 < left then 0 else left).toInt = if 0 < left.toInt then 0 else left.toInt := by
    simp only [Int32.lt_iff_toInt_lt, hzero]
    split <;> rfl
  have hlo := left.le_toInt
  have hhi := left.toInt_lt
  have hlo' := rest.le_toInt
  have hhi' := rest.toInt_lt
  have hwidth := width.toInt_lt
  change left.toInt = _ at hk
  change rest.toInt = _ at hj
  rw [hleft] at hj
  constructor
  · intro hsum
    change _ ∨ _
    split at hj <;> omega
  · intro hholds
    change _ ∨ _ at hholds
    split at hj <;> omega

/-- The length that the padding in front uses is the number of characters shown. -/
theorem min_strnlen {precision : Int32} {bytes : List UInt8} (hlen : bytes.length < 2 ^ 32 - 1)
    (hprecision : -1 ≤ precision) :
    min bytes.length precision.toUInt32.toNat = (admitted precision bytes).length := by
  have hzero : (0 : Int32).toInt = 0 := rfl
  have hone : (-1 : Int32).toInt = -1 := rfl
  unfold admitted
  rw [Int32.le_iff_toInt_le, hone] at hprecision
  by_cases hneg : precision < 0
  · have hall : (-1 : Int32).toUInt32.toNat = 2 ^ 32 - 1 := rfl
    have heq : precision = -1 := by
      rw [Int32.lt_iff_toInt_lt, hzero] at hneg
      apply Int32.toInt.inj
      omega
    rw [if_pos hneg, heq, hall]
    omega
  · rw [if_neg hneg, List.length_take, Int32.toNat_toUInt32_of_le (Int32.not_lt.mp hneg),
      Nat.min_comm]

theorem length_shownChars (d : Directive) (s : CString) :
    (shownChars d s).length = (admitted d.precision s.bytes).length := List.length_map _

theorem putString_left (hlen : s.bytes.length < 2 ^ 32 - 1) (hprecision : -1 ≤ d.precision)
    (hlead : 0 < d.width ∧ d.padc ≠ '-'.toUInt8) :
    putString d s =
      let left := d.width - Int32.ofNat (shownChars d s).length
      let rest := (if 0 < left then 0 else left) - Int32.ofNat (shownChars d s).length
      (List.replicate left.toInt.toNat d.padc ++ shownChars d s ++
        List.replicate rest.toInt.toNat ' '.toUInt8).map charToInt := by
  rw [putString_eq, putLead_eq, if_pos hlead, strnlen_eq, min_strnlen hlen hprecision,
    length_shownChars, List.map_append, List.map_append, ← putPad_bytes, ← putPad_bytes]
  dsimp only
  rw [putChars_eq]
  rfl

theorem putString_right (hlead : ¬ (0 < d.width ∧ d.padc ≠ '-'.toUInt8)) :
    putString d s =
      (shownChars d s ++ List.replicate
        (d.width - Int32.ofNat (shownChars d s).length).toInt.toNat ' '.toUInt8).map
          charToInt := by
  rw [putString_eq, putLead_eq, if_neg hlead, length_shownChars, List.map_append, ← putPad_bytes]
  dsimp only
  rw [putChars_eq]
  rfl

/-- The characters of a string are padded as the directive asks exactly when the counting of
its characters does not wrap. -/
theorem putString_eq_filled_iff (hlen : s.bytes.length < 2 ^ 32 - 1) (hwidth : -1 ≤ d.width)
    (hprecision : -1 ≤ d.precision) :
    putString d s = (filled d.padc d.width.toInt.toNat (shownChars d s)).map charToInt ↔
      WidthHolds d (shownChars d s).length := by
  have hzero : (0 : Int32).toInt = 0 := rfl
  have hone : (-1 : Int32).toInt = -1 := rfl
  have hn : (shownChars d s).length < 2 ^ 32 - 1 := by
    rw [length_shownChars, ← min_strnlen hlen hprecision]
    omega
  rw [Int32.le_iff_toInt_le, hone] at hwidth
  unfold WidthHolds filled
  by_cases hlead : 0 < d.width ∧ d.padc ≠ '-'.toUInt8
  · have hpos : 0 < d.width.toInt := Int32.lt_iff_toInt_lt.mp hlead.1
    obtain ⟨honly, hholds⟩ := left_count hn hpos
    rw [putString_left hlen hprecision hlead, if_pos hlead, if_neg hlead.2]
    dsimp only at honly hholds ⊢
    constructor
    · intro heq
      have hlength := congrArg List.length heq
      simp only [List.length_map, List.length_append, List.length_replicate] at hlength
      apply honly
      omega
    · intro hcond
      obtain ⟨hleft, hrest⟩ := hholds hcond
      rw [hleft, hrest, List.replicate_zero, List.append_nil]
  · have hcount := right_count hn hwidth
    rw [putString_right hlead, if_neg hlead, ← hcount]
    constructor
    · intro heq
      have hlength := congrArg List.length heq
      split at hlength <;>
        (simp only [List.length_map, List.length_append, List.length_replicate] at hlength; omega)
    · intro hblanks
      rw [hblanks]
      split
      · rfl
      · next hpadc =>
        have hnone : d.width.toInt.toNat = 0 := by
          have hlow : ¬ 0 < d.width := fun h => hlead ⟨h, hpadc⟩
          rw [Int32.lt_iff_toInt_lt, hzero] at hlow
          omega
        simp [hnone]

end

/-- `%s` behind its `%`, with flags, a width and a precision that are arguments. -/
structure StarSpelling where
  flags : List Flag
  width : Bool
  precision : Bool

namespace StarSpelling

def precisionText (w : StarSpelling) : List UInt8 :=
  if w.precision then ['.'.toUInt8, '*'.toUInt8] else []

def text (w : StarSpelling) : List UInt8 :=
  w.flags.map Flag.byte ++
    ((if w.width then ['*'.toUInt8] else []) ++ (w.precisionText ++ ['s'.toUInt8]))

/-- The arguments up to the string. -/
def stars (w : StarSpelling) : Nat := w.width.toNat + w.precision.toNat

/-- What the directive asks for; a missing width asks for nothing. -/
def asked (w : StarSpelling) (args : Args) (ap : Nat) : Directive where
  padc := Spelling.padding ' '.toUInt8 w.flags
  width :=
    if w.width then (args ap).word.toInt32
    else if w.precision then 0
    else -1
  precision := if w.precision then (args (ap + w.width.toNat)).word.toInt32 else -1
  altflag := decide (Flag.alternate ∈ w.flags)

def string (w : StarSpelling) (args : Args) (ap : Nat) : CString :=
  if (args (ap + w.stars)).word = 0 then .lit "(null)" else (args (ap + w.stars)).str

/-- The widths and precisions that are passed are not negative. -/
structure Passed (w : StarSpelling) (args : Args) (ap : Nat) : Prop where
  width : w.width → 0 ≤ (args ap).word.toInt32
  precision : w.precision → 0 ≤ (args (ap + w.width.toNat)).word.toInt32

/-- The directive whose `%` is at `pos` prints the characters that it admits, padded to its
width, and with what stands behind one byte more it reads nothing of the string. -/
def LaidOut (w : StarSpelling) (fmt : CString) (args : Args) (pos ap : Nat) : Prop :=
  let d := w.asked args ap
  let shown := shownChars d (w.string args ap)
  let out := (filled d.padc d.width.toInt.toNat shown).map charToInt
  reswitch fmt args {} (pos + 1) ap =
      .ok ('s'.toUInt8, d, pos + 1 + w.text.length, ap + w.stars) ∧
    convert 's'.toUInt8 d args (ap + w.stars) = .put out (ap + w.stars + 1) ∧
    putStringAt d (((w.string args ap).bytes ++ [0]).take (shown.length + 1)) = .ok out

variable {fmt : CString} {args : Args} {pos ap : Nat}

theorem reswitch_end (w : StarSpelling) (d : Directive) (hprecision : d.precision = -1)
    (h : StandsIn fmt pos (w.precisionText ++ ['s'.toUInt8])) :
    reswitch fmt args d pos ap = .ok ('s'.toUInt8,
      { d with
        width := if w.precision then if d.width < 0 then 0 else d.width else d.width
        precision := if w.precision then (args ap).word.toInt32 else -1 },
      pos + (w.precisionText ++ ['s'.toUInt8]).length, ap + w.precision.toNat) := by
  have hletter : ¬ Modifier 's'.toUInt8 := by
    unfold Modifier
    decide
  obtain ⟨padc, width, precision, lflag, altflag⟩ := d
  obtain rfl : precision = -1 := hprecision
  unfold precisionText at h ⊢
  cases hstar : w.precision with
  | false =>
    rw [hstar] at h
    exact reswitch_letter h.head hletter args _ ap
  | true =>
    rw [hstar] at h
    have hdot : ∀ d : Directive, (if d.width < 0 then { d with width := 0 } else d) =
        { d with width := if d.width < 0 then 0 else d.width } := by
      intro d
      split <;> rfl
    have hwidth : ¬ (if width < 0 then (0 : Int32) else width) < 0 := by
      split
      · decide
      · next h => exact h
    rw [reswitch_dot h.head, hdot, reswitch_star h.tail.head]
    unfold Directive.processPrecision
    rw [if_neg hwidth]
    exact reswitch_letter h.tail.tail.head hletter args _ (ap + 1)

theorem reswitch_text (w : StarSpelling) (hpassed : w.Passed args ap)
    (h : StandsIn fmt pos w.text) :
    reswitch fmt args {} pos ap =
      .ok ('s'.toUInt8, w.asked args ap, pos + w.text.length, ap + w.stars) := by
  have hafter := h.right
  rw [List.length_map] at hafter
  rw [reswitch_flags w.flags h.left]
  unfold text asked stars
  rw [List.length_append, List.length_append, List.length_map, ← Nat.add_assoc pos,
    ← Nat.add_assoc (pos + _), ← Nat.add_assoc ap]
  have hwidth := hpassed.width
  cases hstar : w.width with
  | false =>
    rw [hstar] at hafter
    rw [w.reswitch_end _ rfl hafter]
    rfl
  | true =>
    rw [hstar] at hafter hwidth
    have hunset : (-1 : Int32) < 0 := by decide
    have hneg : ¬ (args ap).word.toInt32 < 0 := Int32.not_lt.mpr (hwidth rfl)
    rw [reswitch_star hafter.head]
    unfold Directive.processPrecision
    rw [if_pos hunset, w.reswitch_end _ rfl hafter.tail]
    dsimp only
    rw [if_neg hneg, ite_self]
    rfl

theorem asked_bounds (w : StarSpelling) (hpassed : w.Passed args ap) :
    -1 ≤ (w.asked args ap).width ∧ -1 ≤ (w.asked args ap).precision := by
  have hbelow : (-1 : Int32) ≤ 0 := by decide
  constructor
  · change -1 ≤ if w.width then (args ap).word.toInt32 else if w.precision then 0 else -1
    split
    · next h => exact Int32.le_trans hbelow (hpassed.width h)
    · split
      · exact hbelow
      · exact Int32.le_refl _
  · change -1 ≤ if w.precision then (args (ap + w.width.toNat)).word.toInt32 else -1
    split
    · next h => exact Int32.le_trans hbelow (hpassed.precision h)
    · exact Int32.le_refl _

theorem laidOut_iff_filled (w : StarSpelling) (hpassed : w.Passed args ap)
    (hlen : (w.string args ap).bytes.length < 2 ^ 32 - 1)
    (h : StandsIn fmt pos ('%'.toUInt8 :: w.text)) :
    w.LaidOut fmt args pos ap ↔
      WidthHolds (w.asked args ap) (shownChars (w.asked args ap) (w.string args ap)).length := by
  obtain ⟨hwidth, hprecision⟩ := w.asked_bounds hpassed
  have hparse := w.reswitch_text hpassed h.tail
  have hconvert : convert 's'.toUInt8 (w.asked args ap) args (ap + w.stars) =
      .put (putString (w.asked args ap) (w.string args ap)) (ap + w.stars + 1) := rfl
  have hcount := length_shownChars (w.asked args ap) (w.string args ap)
  have hread := putStringAt_run (n := (shownChars (w.asked args ap) (w.string args ap)).length)
    (w.asked args ap) (w.string args ap) hcount.ge
    ((min_strnlen hlen hprecision).trans hcount.symm).le
  rw [← putString_eq_filled_iff hlen hwidth hprecision]
  unfold LaidOut
  dsimp only
  rw [hparse, hconvert, hread]
  constructor
  · rintro ⟨-, -, hsame⟩
    exact Except.ok.inj hsame
  · intro hsame
    rw [hsame]
    exact ⟨rfl, rfl, rfl⟩

/-- `%s` prints what its directive asks for, and reads no further than it must, exactly when
the string is not so long that its count wraps. The string ends before the end of a 32-bit
address space. -/
theorem string_laidOut_iff (w : StarSpelling) (fmt : CString) (args : Args) (pos ap : Nat)
    (hpassed : w.Passed args ap) (hlen : (w.string args ap).bytes.length < 2 ^ 32 - 1)
    (h : StandsIn fmt pos ('%'.toUInt8 :: w.text)) :
    w.LaidOut fmt args pos ap ↔
      WidthHolds (w.asked args ap) (shownChars (w.asked args ap) (w.string args ap)).length :=
  w.laidOut_iff_filled hpassed hlen h

/-- `%-#*.*s` of width 5 and precision 2. -/
theorem string_laidOut_iff_left :
    (⟨[.minus, .alternate], true, true⟩ : StarSpelling).LaidOut (.lit "%-#*.*s")
      (fun ap => if ap = 0 then ⟨5, .lit ""⟩ else if ap = 1 then ⟨2, .lit ""⟩
        else stringArg (.lit "abc")) 0 0 := by
  refine (string_laidOut_iff _ _ _ 0 0 ⟨?_, ?_⟩ ?_ (Spelling.standsIn_bytes ?_)).mpr ?_
  all_goals decide

/-- A string of `2 ^ 31` characters. -/
def longString : CString where
  bytes := List.replicate (2 ^ 31) 'a'.toUInt8
  nonzero c hc := by
    rw [List.eq_of_mem_replicate hc]
    decide

/-- Behind the characters of the string the width of `%s` has come around, and blanks follow. -/
theorem blanks_behind_long :
    ¬ (⟨[], false, false⟩ : StarSpelling).LaidOut (.lit "%s")
      (fun _ => stringArg longString) 0 0 := by
  have hstring : (⟨[], false, false⟩ : StarSpelling).string (fun _ => stringArg longString) 0 =
      longString := rfl
  have hcount : (shownChars {} longString).length = 2 ^ 31 := by
    rw [length_shownChars]
    exact List.length_replicate
  have hlead : ¬ ((0 : Int32) < -1 ∧ ' '.toUInt8 ≠ '-'.toUInt8) := by decide
  rw [laidOut_iff_filled _ ⟨by decide, by decide⟩ ?_ (Spelling.standsIn_bytes (by decide)), hstring]
  · change ¬ WidthHolds {} (shownChars {} longString).length
    rw [hcount, WidthHolds, if_neg hlead]
    decide
  · rw [hstring]
    change (List.replicate (2 ^ 31) 'a'.toUInt8).length < _
    rw [List.length_replicate]
    decide

end StarSpelling

end Jos
