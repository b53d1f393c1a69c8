import Jos.IntOps

/-!
When the parse of a directive overflows no `int`: its numbers are at most `2 ^ 31 - 49`, and its
`l`s are fewer than `2 ^ 31`.
-/

namespace Jos

instance (c : UInt8) : Decidable (Stops c) := by
  unfold Stops
  infer_instance

instance (c : UInt8) : Decidable (Modifier c) := by
  unfold Modifier
  infer_instance

/-- The number that digits write behind `v`. -/
def runValue (v : Nat) (run : List UInt8) : Nat :=
  run.foldl (fun v c => v * 10 + (c.toNat - 48)) v

/-- The digits from a place of the format on. -/
def digitsFrom (fmt : CString) (pos : Nat) : List UInt8 :=
  (fmt.bytes.drop pos).takeWhile (fun c => !decide (Stops c))

/-- What stands between the `%` and the letter of a directive. -/
def modifiersFrom (fmt : CString) (pos : Nat) : List UInt8 :=
  (fmt.bytes.drop pos).takeWhile (fun c => decide (Modifier c))

/-- The numbers among the modifiers. -/
def numbersFrom (fmt : CString) (pos : Nat) : List (List UInt8) :=
  Words.words (fun c => decide (Stops c)) (modifiersFrom fmt pos)

section

variable {fmt : CString} {args : Args} {d : Directive} {pos ap v : Nat} {c : UInt8}
  {precision : Int32}

theorem toInt_ucharToInt (c : UInt8) : (ucharToInt c).toInt = c.toNat := by
  have hlt := c.toNat_lt
  unfold ucharToInt
  rw [← ofNat_toNat, UInt8.toNat_toUInt32]
  exact Int32.toInt_ofNat_of_lt (by omega)

theorem toNat_of_digit (hc : ¬ Stops c) : 48 ≤ c.toNat ∧ c.toNat ≤ 57 := by
  unfold Stops at hc
  rw [not_or, UInt8.not_lt, UInt8.not_lt, UInt8.le_iff_toNat_le, UInt8.le_iff_toNat_le] at hc
  exact hc

theorem runValue_le (v : Nat) (run : List UInt8) : v ≤ runValue v run := by
  induction run generalizing v with
  | nil => exact Nat.le_refl v
  | cons c run ih =>
    have hstep : v ≤ v * 10 + (c.toNat - 48) := by omega
    exact le_trans hstep (ih _)

/-- A digit is added before the `'0'` is taken off, so it may be what overflows. -/
theorem allInt_digitOps (hv : precision.toInt = v) (hc : ¬ Stops c) :
    AllInt (digitOps precision c) ↔ v * 10 + c.toNat < 2 ^ 31 := by
  have hten : (10 : Int32).toInt = 10 := rfl
  have hzero : (ucharToInt '0'.toUInt8).toInt = 48 := rfl
  obtain ⟨hlow, hhigh⟩ := toNat_of_digit hc
  have hproduct : (v : Int) * 10 < 2 ^ 31 → (precision * 10).toInt = v * 10 := by
    intro hfits
    rw [Int32.toInt_mul, hten, hv]
    exact Int.bmod_eq_of_le (by omega) (by omega)
  simp only [digitOps, allInt_cons, allInt_nil, and_true]
  constructor
  · rintro ⟨hfirst, hsecond, -⟩
    rw [hv] at hfirst
    rw [hproduct hfirst.2, toInt_ucharToInt] at hsecond
    have hfits := hsecond.2
    omega
  · intro hfits
    have hsum : (precision * 10 + ucharToInt c).toInt = v * 10 + c.toNat := by
      rw [Int32.toInt_add, hproduct (by omega), toInt_ucharToInt]
      exact Int.bmod_eq_of_le (by omega) (by omega)
    rw [hsum, hproduct (by omega), hv, toInt_ucharToInt, hzero]
    unfold IsInt
    omega

theorem toInt_digit (hv : precision.toInt = v) (hc : ¬ Stops c)
    (hfits : v * 10 + c.toNat < 2 ^ 31) :
    (precision * 10 + ucharToInt c - ucharToInt '0'.toUInt8).toInt =
      (v * 10 + (c.toNat - 48) : Nat) := by
  have hten : (10 : Int32).toInt = 10 := rfl
  have hzero : (ucharToInt '0'.toUInt8).toInt = 48 := rfl
  have hbounds := toNat_of_digit hc
  have hproduct : (precision * 10).toInt = v * 10 := by
    rw [Int32.toInt_mul, hten, hv]
    exact Int.bmod_eq_of_le (by omega) (by omega)
  have hsum : (precision * 10 + ucharToInt c).toInt = v * 10 + c.toNat := by
    rw [Int32.toInt_add, hproduct, toInt_ucharToInt]
    exact Int.bmod_eq_of_le (by omega) (by omega)
  rw [Int32.toInt_sub, hsum, hzero, Int.bmod_eq_of_le (by omega) (by omega)]
  omega

theorem digitsFrom_cons (hread : fmt.byteAt pos = some c) (hc : ¬ Stops c) :
    digitsFrom fmt pos = c :: digitsFrom fmt (pos + 1) := by
  have hnul : c ≠ 0 := (Modifier.of_digit hc).ne_zero
  unfold digitsFrom
  rw [CString.drop_of_byteAt hread hnul, List.takeWhile_cons_of_pos (by simp [hc])]

theorem digitsFrom_nil (hread : fmt.byteAt pos = some c) (hc : Stops c) :
    digitsFrom fmt pos = [] := by
  unfold digitsFrom
  by_cases hnul : c = 0
  · subst hnul
    rw [CString.byteAt_eq_zero hread, List.drop_length, List.takeWhile_nil]
  · rw [CString.drop_of_byteAt hread hnul, List.takeWhile_cons_of_neg (by simp [hc])]

theorem digitsFrom_none (hread : fmt.byteAt pos = none) : digitsFrom fmt pos = [] := by
  have hlt := CString.byteAt_eq_none.mp hread
  unfold digitsFrom
  rw [List.drop_eq_nil_of_le hlt.le, List.takeWhile_nil]

/-- Reading a number keeps to `int`s exactly when the number is at most `2 ^ 31 - 49`. -/
theorem allInt_readPrecisionOps (hv : precision.toInt = v) (hc : ¬ Stops c) :
    AllInt (readPrecisionOps fmt precision c pos) ↔
      runValue v (c :: digitsFrom fmt pos) + 48 < 2 ^ 31 := by
  have hlast : ∀ (v : Nat) (c : UInt8), ¬ Stops c →
      (v * 10 + c.toNat < 2 ^ 31 ↔ runValue v [c] + 48 < 2 ^ 31) := by
    intro v c hc
    have hbounds := toNat_of_digit hc
    change _ ↔ v * 10 + (c.toNat - 48) + 48 < 2 ^ 31
    omega
  fun_induction readPrecisionOps fmt precision c pos generalizing v with
  | case1 precision c pos hnone =>
    rw [digitsFrom_none hnone, allInt_digitOps hv hc, hlast v c hc]
  | case2 precision c pos stop hread hstop =>
    rw [digitsFrom_nil hread hstop, allInt_digitOps hv hc, hlast v c hc]
  | case3 precision c pos digit hread hdigit ih =>
    have hbounds := toNat_of_digit hc
    rw [digitsFrom_cons hread hdigit, allInt_append, allInt_digitOps hv hc]
    change _ ↔ runValue (v * 10 + (c.toNat - 48)) (digit :: digitsFrom fmt (pos + 1)) + 48 < 2 ^ 31
    by_cases hfits : v * 10 + c.toNat < 2 ^ 31
    · rw [iff_true_intro hfits, true_and]
      exact ih (toInt_digit hv hc hfits) hdigit
    · have hgrows := runValue_le (v * 10 + (c.toNat - 48)) (digit :: digitsFrom fmt (pos + 1))
      rw [iff_false_intro hfits, false_and, false_iff]
      omega

/-- Behind the number the format goes on where its digits end. -/
theorem readPrecision_drop {n : Int32} {pos' : Nat}
    (h : readPrecision fmt precision c pos = .ok (n, pos')) :
    fmt.bytes.drop pos = digitsFrom fmt pos ++ fmt.bytes.drop pos' ∧
      ∃ stop, fmt.byteAt pos' = some stop ∧ Stops stop := by
  fun_induction readPrecision fmt precision c pos with
  | case1 => cases h
  | case2 _ _ pos _ stop hread hstop =>
    obtain ⟨-, rfl⟩ := Prod.mk.inj (Except.ok.inj h)
    rw [digitsFrom_nil hread hstop, List.nil_append]
    exact ⟨rfl, stop, hread, hstop⟩
  | case3 _ _ pos _ digit hread hdigit ih =>
    obtain ⟨hdrop, hend⟩ := ih h
    have hnul : digit ≠ 0 := (Modifier.of_digit hdigit).ne_zero
    rw [digitsFrom_cons hread hdigit, List.cons_append, ← hdrop,
      CString.drop_of_byteAt hread hnul]
    exact ⟨rfl, hend⟩

theorem modifiersFrom_cons (hread : fmt.byteAt pos = some c) (hc : Modifier c) :
    modifiersFrom fmt pos = c :: modifiersFrom fmt (pos + 1) := by
  unfold modifiersFrom
  rw [CString.drop_of_byteAt hread hc.ne_zero, List.takeWhile_cons_of_pos (by simp [hc])]

theorem modifiersFrom_letter (hread : fmt.byteAt pos = some c) (hc : ¬ Modifier c) :
    modifiersFrom fmt pos = [] := by
  unfold modifiersFrom
  by_cases hnul : c = 0
  · subst hnul
    rw [CString.byteAt_eq_zero hread, List.drop_length, List.takeWhile_nil]
  · rw [CString.drop_of_byteAt hread hnul, List.takeWhile_cons_of_neg (by simp [hc])]

theorem modifiersFrom_number {n : Int32} {pos' : Nat}
    (h : readPrecision fmt precision c pos = .ok (n, pos')) :
    modifiersFrom fmt pos = digitsFrom fmt pos ++ modifiersFrom fmt pos' := by
  obtain ⟨hdrop, -⟩ := readPrecision_drop h
  have hdigits : ∀ e ∈ digitsFrom fmt pos, decide (Modifier e) = true := by
    intro e he
    have hdigit : ¬ Stops e := by simpa using List.mem_takeWhile_imp he
    exact decide_eq_true (Modifier.of_digit hdigit)
  unfold modifiersFrom
  rw [hdrop, List.takeWhile_append_of_pos hdigits]

/-- The numbers that a place reads, and the `l`s, keep to `int`s. -/
structure TextTame (fmt : CString) (pos lflag : Nat) : Prop where
  numbers : ∀ run ∈ numbersFrom fmt pos, runValue 0 run + 48 < 2 ^ 31
  longs : lflag + (modifiersFrom fmt pos).count 'l'.toUInt8 < 2 ^ 31

/-- A modifier that is no digit and no `l` changes nothing. -/
theorem textTame_skip {lflag : Nat} (hread : fmt.byteAt pos = some c) (hc : Modifier c)
    (hstop : Stops c) (hlong : c ≠ 'l'.toUInt8) :
    TextTame fmt pos lflag ↔ TextTame fmt (pos + 1) lflag := by
  have hmods := modifiersFrom_cons hread hc
  have hnumbers : numbersFrom fmt pos = numbersFrom fmt (pos + 1) := by
    unfold numbersFrom
    rw [hmods]
    exact Words.words_skip (p := fun c => decide (Stops c)) (decide_eq_true hstop) _
  have hcount : (modifiersFrom fmt pos).count 'l'.toUInt8 =
      (modifiersFrom fmt (pos + 1)).count 'l'.toUInt8 := by
    rw [hmods, List.count_cons_of_ne hlong]
  constructor
  · exact fun h => ⟨hnumbers ▸ h.numbers, hcount ▸ h.longs⟩
  · exact fun h => ⟨hnumbers ▸ h.numbers, hcount ▸ h.longs⟩

/-- A zero in front of a number, or on its own, is a flag and no digit of it. -/
theorem textTame_zero {lflag : Nat} (hread : fmt.byteAt pos = some '0'.toUInt8) :
    TextTame fmt pos lflag ↔ TextTame fmt (pos + 1) lflag := by
  have hmodifier : Modifier '0'.toUInt8 := by decide
  have hdigit : decide (Stops '0'.toUInt8) = false := by decide
  have hmods := modifiersFrom_cons hread hmodifier
  have hcount : (modifiersFrom fmt pos).count 'l'.toUInt8 =
      (modifiersFrom fmt (pos + 1)).count 'l'.toUInt8 := by
    rw [hmods, List.count_cons_of_ne (by decide)]
  have hnumbers : (∀ run ∈ numbersFrom fmt pos, runValue 0 run + 48 < 2 ^ 31) ↔
      ∀ run ∈ numbersFrom fmt (pos + 1), runValue 0 run + 48 < 2 ^ 31 := by
    unfold numbersFrom
    rw [hmods]
    generalize modifiersFrom fmt (pos + 1) = mods
    rw [Words.words_takeWhile (List.cons_ne_nil _ _) (by simpa using hdigit),
      List.takeWhile_cons_of_pos (by simp [hdigit]), List.dropWhile_cons_of_pos (by simp [hdigit]),
      List.forall_mem_cons]
    have hvalue : ∀ run, runValue 0 ('0'.toUInt8 :: run) = runValue 0 run := fun _ => rfl
    rw [hvalue]
    by_cases hnumber : mods ≠ [] ∧ ∀ c ∈ mods.head?, decide (Stops c) = false
    · rw [Words.words_takeWhile hnumber.1 hnumber.2, List.forall_mem_cons]
    · have hnone : mods.takeWhile (fun c => !decide (Stops c)) = [] ∧
          mods.dropWhile (fun c => !decide (Stops c)) = mods := by
        cases mods with
        | nil => exact ⟨rfl, rfl⟩
        | cons c mods =>
          have hstop : decide (Stops c) = true := by simpa using hnumber
          exact ⟨List.takeWhile_cons_of_neg (by simp [hstop]),
            List.dropWhile_cons_of_neg (by simp [hstop])⟩
      rw [hnone.1, hnone.2]
      exact and_iff_right (by decide)
  constructor
  · exact fun h => ⟨hnumbers.mp h.numbers, hcount ▸ h.longs⟩
  · exact fun h => ⟨hnumbers.mpr h.numbers, hcount ▸ h.longs⟩

theorem textTame_number {lflag pos' : Nat} {n : Int32} (hread : fmt.byteAt pos = some c)
    (hc : ¬ Stops c) (h : readPrecision fmt precision c (pos + 1) = .ok (n, pos')) :
    TextTame fmt pos lflag ↔
      runValue 0 (c :: digitsFrom fmt (pos + 1)) + 48 < 2 ^ 31 ∧ TextTame fmt pos' lflag := by
  obtain ⟨-, stop, hstop, hend⟩ := readPrecision_drop h
  have hmods : modifiersFrom fmt pos = c :: digitsFrom fmt (pos + 1) ++ modifiersFrom fmt pos' := by
    rw [modifiersFrom_cons hread (Modifier.of_digit hc), modifiersFrom_number h, List.cons_append]
  have hdigits : ∀ e ∈ c :: digitsFrom fmt (pos + 1), ¬ Stops e := by
    intro e he
    rcases List.mem_cons.mp he with rfl | hrest
    · exact hc
    · simpa using List.mem_takeWhile_imp hrest
  have hnext : ∀ e ∈ (modifiersFrom fmt pos').head?, decide (Stops e) = true := by
    intro e he
    by_cases hmod : Modifier stop
    · rw [modifiersFrom_cons hstop hmod, List.head?_cons] at he
      rw [← Option.some.inj he]
      exact decide_eq_true hend
    · rw [modifiersFrom_letter hstop hmod] at he
      cases he
  have hnumbers : numbersFrom fmt pos =
      (c :: digitsFrom fmt (pos + 1)) :: numbersFrom fmt pos' := by
    unfold numbersFrom
    rw [hmods]
    exact Words.words_append (List.cons_ne_nil _ _)
      (fun e he => decide_eq_false (hdigits e he)) hnext
  have hcount : (modifiersFrom fmt pos).count 'l'.toUInt8 =
      (modifiersFrom fmt pos').count 'l'.toUInt8 := by
    rw [hmods, List.count_append, List.count_eq_zero_of_not_mem, Nat.zero_add]
    exact fun hlong => hdigits _ hlong (by decide)
  constructor
  · intro htame
    have hall := htame.numbers
    rw [hnumbers, List.forall_mem_cons] at hall
    exact ⟨hall.1, hall.2, hcount ▸ htame.longs⟩
  · rintro ⟨hfirst, hrest⟩
    refine ⟨?_, hcount ▸ hrest.longs⟩
    rw [hnumbers, List.forall_mem_cons]
    exact ⟨hfirst, hrest.numbers⟩

theorem textTame_long {lflag : Nat} (hread : fmt.byteAt pos = some 'l'.toUInt8) :
    TextTame fmt pos lflag ↔ TextTame fmt (pos + 1) (lflag + 1) := by
  have hmods := modifiersFrom_cons hread (by decide)
  have hnumbers : numbersFrom fmt pos = numbersFrom fmt (pos + 1) := by
    unfold numbersFrom
    rw [hmods]
    exact Words.words_skip (p := fun c => decide (Stops c)) (by decide) _
  have hcount : lflag + (modifiersFrom fmt pos).count 'l'.toUInt8 =
      lflag + 1 + (modifiersFrom fmt (pos + 1)).count 'l'.toUInt8 := by
    rw [hmods, List.count_cons_self]
    omega
  constructor
  · exact fun h => ⟨hnumbers ▸ h.numbers, hcount ▸ h.longs⟩
  · exact fun h => ⟨hnumbers ▸ h.numbers, hcount ▸ h.longs⟩

theorem textTame_letter {lflag : Nat} (hread : fmt.byteAt pos = some c) (hc : ¬ Modifier c)
    (hlflag : lflag < 2 ^ 31) : TextTame fmt pos lflag := by
  have hmods := modifiersFrom_letter hread hc
  constructor
  · unfold numbersFrom
    rw [hmods]
    exact nofun
  · rw [hmods]
    exact hlflag

theorem lflag_processPrecision (d : Directive) : d.processPrecision.lflag = d.lflag := by
  unfold Directive.processPrecision
  split <;> rfl

/-- The parse of a directive keeps to `int`s exactly when its numbers and its `l`s do. -/
theorem allInt_reswitchOps (hpos : pos ≤ fmt.bytes.length) {lflag : Nat}
    (hlflag : d.lflag.toInt = lflag) :
    AllInt (reswitchOps fmt args d pos ap) ↔ TextTame fmt pos lflag := by
  have hone : (1 : Int32).toInt = 1 := rfl
  have hbehind : ∀ {pos : Nat} {c : UInt8}, fmt.byteAt pos = some c → c ≠ 0 →
      pos + 1 ≤ fmt.bytes.length := fun hread hc => CString.lt_of_byteAt hread hc
  fun_induction reswitchOps fmt args d pos ap generalizing lflag with
  | case1 _ pos _ hnone =>
    have hlt := CString.byteAt_eq_none.mp hnone
    omega
  | case2 d pos ap hread ih =>
    rw [textTame_skip hread (by decide) (by decide) (by decide)]
    exact ih (hbehind hread (by decide)) hlflag
  | case3 d pos ap hread _ ih =>
    rw [textTame_zero hread]
    exact ih (hbehind hread (by decide)) hlflag
  | case4 d pos ap c hread _ _ hdigit e hnumber =>
    obtain ⟨n, pos', hrun, -⟩ := readPrecision_modifiers fmt 0 c (pos + 1)
      (hbehind hread (Modifier.of_width hdigit).ne_zero)
    rw [hnumber] at hrun
    cases hrun
  | case5 d pos ap c hread _ _ hdigit n pos' hnumber ih =>
    have hc : ¬ Stops c := by
      have hle : '0'.toUInt8 ≤ '1'.toUInt8 := by decide
      unfold Stops
      rw [not_or, UInt8.not_lt, UInt8.not_lt]
      exact ⟨UInt8.le_trans hle hdigit.1, hdigit.2⟩
    obtain ⟨-, stop, hstop, -⟩ := readPrecision_drop hnumber
    have hkept : (({ d with precision := n } : Directive).processPrecision).lflag.toInt =
        lflag := by
      rw [lflag_processPrecision]
      exact hlflag
    rw [textTame_number hread hc hnumber, allInt_append]
    exact and_congr (allInt_readPrecisionOps rfl hc) (ih (CString.le_of_byteAt hstop) hkept)
  | case6 d pos ap _ hread _ _ _ ih =>
    rw [textTame_skip hread (by decide) (by decide) (by decide)]
    exact ih (hbehind hread (by decide)) (by rw [lflag_processPrecision]; exact hlflag)
  | case7 d pos ap hread _ _ _ _ ih =>
    rw [textTame_skip hread (by decide) (by decide) (by decide)]
    exact ih (hbehind hread (by decide)) (by split <;> exact hlflag)
  | case8 d pos ap hread _ _ _ _ _ ih =>
    rw [textTame_skip hread (by decide) (by decide) (by decide)]
    exact ih (hbehind hread (by decide)) hlflag
  | case9 d pos ap hread _ _ _ _ _ _ ih =>
    rw [textTame_long hread, allInt_cons]
    by_cases hfits : lflag + 1 < 2 ^ 31
    · have hint : IsInt (d.lflag.toInt + 1) := by
        unfold IsInt
        omega
      have hstep : (d.lflag + 1).toInt = (lflag + 1 : Nat) := by
        rw [Int32.toInt_add, hone, Int.bmod_eq_of_le (by omega) (by omega), hlflag]
        rfl
      rw [iff_true_intro hint, true_and]
      exact ih (hbehind hread (by decide)) hstep
    · refine iff_of_false ?_ ?_
      · rintro ⟨⟨-, hint⟩, -⟩
        omega
      · intro htame
        have hlongs := htame.longs
        omega
  | case10 d pos ap c hread hflag hzero hdigit hstar hdot halt hlong =>
    have hmod := modifier_cases hflag hzero hdigit hstar hdot halt hlong
    have hhigh := d.lflag.toInt_lt
    exact iff_of_true allInt_nil (textTame_letter hread hmod (by omega))

end

end Jos
