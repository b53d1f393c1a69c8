import Jos.Printfmt

/-!
How far the formatter reads, and that it always comes to an end: a directive
that is not recognized sends it back to the byte behind its `%`, so every round
of the main loop starts further on than the one before.
-/

namespace Jos

/-- The bytes that may stand between the `%` and the letter of a directive. -/
def Modifier (c : UInt8) : Prop :=
  c = '-'.toUInt8 ∨ ('0'.toUInt8 ≤ c ∧ c ≤ '9'.toUInt8) ∨ c = '*'.toUInt8 ∨
    c = '.'.toUInt8 ∨ c = '#'.toUInt8 ∨ c = 'l'.toUInt8

/-- The letters that end a directive. -/
def Recognized (c : UInt8) : Prop :=
  c = 'c'.toUInt8 ∨ c = 'e'.toUInt8 ∨ c = 's'.toUInt8 ∨ c = 'd'.toUInt8 ∨ c = 'u'.toUInt8 ∨
    c = 'o'.toUInt8 ∨ c = 'p'.toUInt8 ∨ c = 'x'.toUInt8 ∨ c = '%'.toUInt8

theorem Modifier.of_digit {c : UInt8}
    (h : ¬ (c < '0'.toUInt8 ∨ '9'.toUInt8 < c)) : Modifier c := by
  rw [not_or] at h
  exact .inr (.inl ⟨UInt8.not_lt.mp h.1, UInt8.not_lt.mp h.2⟩)

theorem Modifier.of_width {c : UInt8} (h : '1'.toUInt8 ≤ c ∧ c ≤ '9'.toUInt8) :
    Modifier c := by
  have hle : '0'.toUInt8 ≤ '1'.toUInt8 := by decide
  exact .inr (.inl ⟨UInt8.le_trans hle h.1, h.2⟩)

theorem Modifier.ne_zero {c : UInt8} (h : Modifier c) : c ≠ 0 := by
  rintro rfl
  revert h
  unfold Modifier
  decide

theorem Modifier.ne_percent {c : UInt8} (h : Modifier c) : c ≠ '%'.toUInt8 := by
  rintro rfl
  revert h
  unfold Modifier
  decide

/-- All the bytes from `lo` up to `hi` are modifiers. -/
def Modifiers (fmt : CString) (lo hi : Nat) : Prop :=
  ∀ i, lo ≤ i → i < hi → ∃ c, fmt.byteAt i = some c ∧ Modifier c

theorem Modifiers.empty (fmt : CString) (pos : Nat) : Modifiers fmt pos pos := by
  intro i hlo hhi
  omega

theorem Modifiers.step {fmt : CString} {pos hi : Nat} {c : UInt8}
    (hread : fmt.byteAt pos = some c) (hc : Modifier c) (h : Modifiers fmt (pos + 1) hi) :
    Modifiers fmt pos hi := by
  intro i hlo hhi
  rcases Nat.eq_or_lt_of_le hlo with rfl | hlt
  · exact ⟨c, hread, hc⟩
  · exact h i hlt hhi

theorem Modifiers.trans {fmt : CString} {lo mid hi : Nat} (h₁ : Modifiers fmt lo mid)
    (h₂ : Modifiers fmt mid hi) : Modifiers fmt lo hi := by
  intro i hlo hhi
  rcases Nat.lt_or_ge i mid with hlt | hge
  · exact h₁ i hlo hlt
  · exact h₂ i hge hhi

theorem readPrecision_modifiers (fmt : CString) (precision : Int32) (ch : UInt8) (pos : Nat)
    (hpos : pos ≤ fmt.bytes.length) :
    ∃ n pos', readPrecision fmt precision ch pos = .ok (n, pos') ∧
      pos' ≤ fmt.bytes.length ∧ Modifiers fmt pos pos' := by
  fun_induction readPrecision fmt precision ch pos with
  | case1 _ _ pos hread =>
    have hlt := CString.byteAt_eq_none.mp hread
    omega
  | case2 _ _ pos => exact ⟨_, _, rfl, hpos, Modifiers.empty fmt pos⟩
  | case3 _ _ pos _ c hread hdigit ih =>
    have hmod := Modifier.of_digit hdigit
    obtain ⟨n, pos', hrun, hle, hmods⟩ := ih (CString.lt_of_byteAt hread hmod.ne_zero)
    exact ⟨n, pos', hrun, hle, hmods.step hread hmod⟩

/-- The formatter has read a directive from `pos` on: modifiers, then the byte
`ch` that is none, with `pos'` behind it. -/
structure Parsed (fmt : CString) (pos : Nat) (ch : UInt8) (pos' : Nat) : Prop where
  letter : fmt.byteAt (pos' - 1) = some ch
  modifiers : Modifiers fmt pos (pos' - 1)
  not_modifier : ¬ Modifier ch
  behind : pos < pos'

theorem Parsed.extend {fmt : CString} {lo pos pos' : Nat} {ch : UInt8}
    (h : Parsed fmt pos ch pos') (hlo : lo ≤ pos) (hmods : Modifiers fmt lo pos) :
    Parsed fmt lo ch pos' where
  letter := h.letter
  modifiers := hmods.trans h.modifiers
  not_modifier := h.not_modifier
  behind := lt_of_le_of_lt hlo h.behind

theorem Parsed.of_letter {fmt : CString} {pos : Nat} {ch : UInt8}
    (hread : fmt.byteAt pos = some ch) (hmod : ¬ Modifier ch) : Parsed fmt pos ch (pos + 1) where
  letter := hread
  modifiers := Modifiers.empty fmt pos
  not_modifier := hmod
  behind := Nat.lt_succ_self pos

/-- The bytes that make `reswitch` go on are the modifiers. -/
theorem modifier_cases {c : UInt8} (hflag : c ≠ '-'.toUInt8) (hzero : c ≠ '0'.toUInt8)
    (hdigit : ¬ ('1'.toUInt8 ≤ c ∧ c ≤ '9'.toUInt8)) (hstar : c ≠ '*'.toUInt8)
    (hdot : c ≠ '.'.toUInt8) (halt : c ≠ '#'.toUInt8) (hlong : c ≠ 'l'.toUInt8) :
    ¬ Modifier c := by
  rintro (h | ⟨hlo, hhi⟩ | h | h | h | h)
  · exact hflag h
  · have hne : c.toNat ≠ 48 := fun heq => hzero (UInt8.toNat_inj.mp heq)
    have hge : 48 ≤ c.toNat := UInt8.le_iff_toNat_le.mp hlo
    exact hdigit ⟨UInt8.le_iff_toNat_le.mpr (show 49 ≤ c.toNat by omega), hhi⟩
  · exact hstar h
  · exact hdot h
  · exact halt h
  · exact hlong h

/-- The parse from `pos` on has ended as `Parsed` says. -/
def Reaches (fmt : CString) (pos : Nat)
    (result : Except Fault (UInt8 × Directive × Nat × Nat)) : Prop :=
  ∃ ch d pos' ap, result = .ok (ch, d, pos', ap) ∧ Parsed fmt pos ch pos'

theorem Reaches.step {fmt : CString} {pos : Nat} {c : UInt8}
    {result : Except Fault (UInt8 × Directive × Nat × Nat)}
    (h : pos + 1 ≤ fmt.bytes.length → Reaches fmt (pos + 1) result)
    (hread : fmt.byteAt pos = some c) (hmod : Modifier c) : Reaches fmt pos result := by
  obtain ⟨ch, d, pos', ap, hrun, hparsed⟩ := h (CString.lt_of_byteAt hread hmod.ne_zero)
  refine ⟨ch, d, pos', ap, hrun, hparsed.extend (Nat.le_succ pos) ?_⟩
  exact (Modifiers.empty fmt (pos + 1)).step hread hmod

/-- `reswitch` returns from every place of the format, at its end too. -/
theorem reswitch_reaches (fmt : CString) (args : Args) (d : Directive) (pos ap : Nat)
    (hpos : pos ≤ fmt.bytes.length) : Reaches fmt pos (reswitch fmt args d pos ap) := by
  fun_induction reswitch fmt args d pos ap with
  | case1 _ pos _ hread =>
    have hlt := CString.byteAt_eq_none.mp hread
    omega
  | case2 _ _ _ hread ih => exact Reaches.step ih hread (by unfold Modifier; decide)
  | case3 _ _ _ hread _ ih => exact Reaches.step ih hread (by unfold Modifier; decide)
  | case4 _ pos _ c hread _ _ hdigit e hnumber =>
    have hmod := Modifier.of_width hdigit
    obtain ⟨n, pos', hrun, -⟩ := readPrecision_modifiers fmt 0 c (pos + 1)
      (CString.lt_of_byteAt hread hmod.ne_zero)
    rw [hnumber] at hrun
    cases hrun
  | case5 _ pos _ c hread _ _ hdigit n pos' hnumber ih =>
    have hmod := Modifier.of_width hdigit
    obtain ⟨n', pos'', hrun, hle, hmods⟩ := readPrecision_modifiers fmt 0 c (pos + 1)
      (CString.lt_of_byteAt hread hmod.ne_zero)
    rw [hnumber] at hrun
    cases hrun
    obtain ⟨ch, d, last, ap, hparse, hparsed⟩ := ih hle
    have hpos' : pos ≤ pos' := le_trans (Nat.le_succ pos) (readPrecision_le hnumber)
    exact ⟨ch, d, last, ap, hparse, hparsed.extend hpos' (hmods.step hread hmod)⟩
  | case6 _ _ _ _ hread _ _ _ ih => exact Reaches.step ih hread (by unfold Modifier; decide)
  | case7 _ _ _ hread _ _ _ _ ih => exact Reaches.step ih hread (by unfold Modifier; decide)
  | case8 _ _ _ hread _ _ _ _ _ ih => exact Reaches.step ih hread (by unfold Modifier; decide)
  | case9 _ _ _ hread _ _ _ _ _ _ ih =>
    exact Reaches.step ih hread (by unfold Modifier; decide)
  | case10 d pos ap c hread hflag hzero hdigit hstar hdot halt hlong =>
    have hmod := modifier_cases hflag hzero hdigit hstar hdot halt hlong
    exact ⟨c, d, pos + 1, ap, rfl, Parsed.of_letter hread hmod⟩

/-- The way back ends behind the `%` at `start` when no other one lies
between. -/
theorem rewind_run {fmt : CString} {start : Nat} (hstart : fmt.byteAt start = some '%'.toUInt8)
    (pos : Nat) (hlt : start < pos) (hmods : Modifiers fmt (start + 1) pos) :
    rewind fmt pos = .ok (start + 1) := by
  induction pos with
  | zero => omega
  | succ pos ih =>
    rcases Nat.eq_or_lt_of_le (Nat.le_of_lt_succ hlt) with rfl | hgt
    · rw [rewind, hstart]
      simp
    · obtain ⟨c, hread, hmod⟩ := hmods pos hgt (Nat.lt_succ_self pos)
      rw [rewind, hread]
      simp only [hmod.ne_percent, if_false]
      exact ih hgt (fun i hlo hhi => hmods i hlo (by omega))

theorem convert_unrecognized_iff (ch : UInt8) (d : Directive) (args : Args) (ap : Nat) :
    convert ch d args ap = .unrecognized ↔ ¬ Recognized ch := by
  unfold convert Recognized
  split_ifs with hc he hs hd hu ho hp hx hpercent
  all_goals try simp [*]
  split <;> simp

theorem Recognized.ne_zero {c : UInt8} (h : Recognized c) : c ≠ 0 := by
  rintro rfl
  revert h
  unfold Recognized
  decide

theorem recognized_of_convert {ch : UInt8} {d : Directive} {args : Args} {ap : Nat}
    {r : Conversion} (h : convert ch d args ap = r) (hr : r ≠ .unrecognized) :
    Recognized ch := by
  by_contra hletter
  exact hr (h.symm.trans ((convert_unrecognized_iff ch d args ap).mpr hletter))

/-- From `pos` on the formatter prints `out`, whatever more than `fuel` it
gets. -/
def Prints (fuel : Nat) (fmt : CString) (args : Args) (pos ap : Nat) (out : List Int32) : Prop :=
  ∀ n, fuel ≤ n → vprintfmtFrom n fmt args pos ap = .ok out

namespace Prints

variable {fuel pos ap : Nat} {fmt : CString} {args : Args} {out : List Int32}

theorem mono {more : Nat} (h : Prints fuel fmt args pos ap out) (hle : fuel ≤ more) :
    Prints more fmt args pos ap out :=
  fun n hn => h n (le_trans hle hn)

theorem of_succ (h : ∀ n, fuel ≤ n → vprintfmtFrom (n + 1) fmt args pos ap = .ok out) :
    Prints (fuel + 1) fmt args pos ap out := by
  intro n hn
  obtain ⟨m, rfl⟩ : ∃ m, n = m + 1 := ⟨n - 1, by omega⟩
  exact h m (by omega)

theorem nul (hread : fmt.byteAt pos = some 0) : Prints (fuel + 1) fmt args pos ap [] := by
  apply of_succ
  intro n _
  rw [vprintfmtFrom, hread]
  rfl

theorem text {c : UInt8} (h : Prints fuel fmt args (pos + 1) ap out)
    (hread : fmt.byteAt pos = some c) (hnul : c ≠ 0) (hpercent : c ≠ '%'.toUInt8) :
    Prints (fuel + 1) fmt args pos ap (ucharToInt c :: out) := by
  apply of_succ
  intro n hn
  rw [vprintfmtFrom, hread]
  simp only [hnul, if_false, hpercent, ne_eq, not_false_eq_true, if_true]
  rw [h n hn]
  rfl

theorem texts (cs : List UInt8) (hplain : ∀ c ∈ cs, c ≠ 0 ∧ c ≠ '%'.toUInt8)
    (hread : ∀ i (hi : i < cs.length), fmt.byteAt (pos + i) = some (cs.get ⟨i, hi⟩))
    (h : Prints fuel fmt args (pos + cs.length) ap out) :
    Prints (fuel + cs.length) fmt args pos ap (cs.map ucharToInt ++ out) := by
  induction cs generalizing pos with
  | nil => exact h
  | cons c cs ih =>
    obtain ⟨hnul, hpercent⟩ := hplain c List.mem_cons_self
    have hrest : Prints (fuel + cs.length) fmt args (pos + 1) ap (cs.map ucharToInt ++ out) :=
      ih (fun d hd => hplain d (List.mem_cons_of_mem c hd))
      (fun i hi => by
        have hpos : pos + 1 + i = pos + (i + 1) := by omega
        rw [hpos]
        exact hread (i + 1) (by simpa using hi))
      (by rwa [List.length_cons, Nat.add_comm cs.length, ← Nat.add_assoc] at h)
    exact hrest.text (hread 0 (by simp)) hnul hpercent

/-- A round of the main loop that reads a directive. -/
theorem round {n : Nat} {ch : UInt8} {d : Directive} {pos' ap' : Nat}
    (hread : fmt.byteAt pos = some '%'.toUInt8)
    (hparse : reswitch fmt args {} (pos + 1) ap = .ok (ch, d, pos', ap')) :
    vprintfmtFrom (n + 1) fmt args pos ap = match convert ch d args ap' with
      | .put shown ap => do
        let out ← vprintfmtFrom n fmt args pos' ap
        return shown ++ out
      | .printfmt call ap => do
        let shown ← vprintfmtFrom n call.1 call.2 0 0
        let out ← vprintfmtFrom n fmt args pos' ap
        return shown ++ out
      | .unrecognized => do
        let pos ← rewind fmt (pos' - 1)
        let out ← vprintfmtFrom n fmt args pos ap'
        return ucharToInt '%'.toUInt8 :: out := by
  have hnul : '%'.toUInt8 ≠ 0 := by decide
  rw [vprintfmtFrom, hread]
  simp only [hnul, if_false, ne_eq, not_true_eq_false]
  rw [hparse]
  rfl

section

variable {ch : UInt8} {d : Directive} {pos' ap' next : Nat} {shown : List Int32}
variable (hread : fmt.byteAt pos = some '%'.toUInt8)
variable (hparse : reswitch fmt args {} (pos + 1) ap = .ok (ch, d, pos', ap'))

include hread hparse

theorem put (h : Prints fuel fmt args pos' next out)
    (hconvert : convert ch d args ap' = .put shown next) :
    Prints (fuel + 1) fmt args pos ap (shown ++ out) := by
  apply of_succ
  intro n hn
  rw [round hread hparse, hconvert]
  dsimp only
  rw [h n hn]
  rfl

theorem printfmt {call : CString × Args} (h : Prints fuel fmt args pos' next out)
    (hconvert : convert ch d args ap' = .printfmt call next)
    (hcall : Prints fuel call.1 call.2 0 0 shown) :
    Prints (fuel + 1) fmt args pos ap (shown ++ out) := by
  apply of_succ
  intro n hn
  rw [round hread hparse, hconvert]
  dsimp only
  rw [hcall n hn, h n hn]
  rfl

theorem unrecognized (h : Prints fuel fmt args (pos + 1) ap' out)
    (hparsed : Parsed fmt (pos + 1) ch pos') (hletter : ¬ Recognized ch) :
    Prints (fuel + 1) fmt args pos ap (ucharToInt '%'.toUInt8 :: out) := by
  apply of_succ
  intro n hn
  have hback := hparsed.behind
  rw [round hread hparse, (convert_unrecognized_iff ch d args ap').mpr hletter]
  dsimp only
  rw [rewind_run hread (pos' - 1) (by omega) hparsed.modifiers]
  change (do
    let out ← vprintfmtFrom n fmt args (pos + 1) ap'
    return ucharToInt '%'.toUInt8 :: out) = _
  rw [h n hn]
  rfl

end

end Prints

theorem reswitch_letter {fmt : CString} {pos : Nat} {ch : UInt8}
    (hread : fmt.byteAt pos = some ch) (hmod : ¬ Modifier ch) (args : Args) (d : Directive)
    (ap : Nat) : reswitch fmt args d pos ap = .ok (ch, d, pos + 1, ap) := by
  have hbytes := hmod
  simp only [Modifier, not_or] at hbytes
  obtain ⟨hflag, hdigit, hstar, hdot, halt, hlong⟩ := hbytes
  have hzero : ch ≠ '0'.toUInt8 := by
    rintro rfl
    exact hdigit (by decide)
  have hwidth : ¬ ('1'.toUInt8 ≤ ch ∧ ch ≤ '9'.toUInt8) :=
    fun h => hmod (Modifier.of_width h)
  rw [reswitch]
  split
  · next hnone =>
    rw [hread] at hnone
    cases hnone
  · next hsome =>
    rw [hread] at hsome
    cases hsome
    simp only [hflag, hzero, hwidth, hstar, hdot, halt, hlong, if_false]

theorem convert_printfmt {ch : UInt8} {d : Directive} {args : Args} {ap next : Nat}
    {call : CString × Args} (h : convert ch d args ap = .printfmt call next) :
    call = errorMessage (args ap).word.toInt32 := by
  unfold convert at h
  split_ifs at h with hc he hs hd hu ho hp hx hpercent
  all_goals try cases h
  · rfl
  · simp only at h
    split at h <;> cases h

theorem printnum_ne_nil (num : UInt64) (base : Base) (width : Int32) (padc : UInt8) :
    printnum num base width padc ≠ [] := by
  rw [printnum]
  exact List.append_ne_nil_of_right_ne_nil _ (List.cons_ne_nil _ _)

theorem putPad_eq_nil_iff (n : Int32) (padc : UInt8) : putPad n padc = [] ↔ n ≤ 0 := by
  unfold putPad
  rw [List.replicate_eq_nil_iff, Int32.le_iff_toInt_le]
  exact Int.toNat_eq_zero

theorem spent_precision_iff (n : Int32) : (¬ n < 0 ∧ ¬ 0 ≤ n - 1) ↔ n = 0 := by
  have hone : (1 : Int32).toInt = 1 := rfl
  have hzero : (0 : Int32).toInt = 0 := rfl
  have hlo := n.le_toInt
  have hhi := n.toInt_lt
  constructor
  · rintro ⟨hneg, hspent⟩
    rw [Int32.lt_iff_toInt_lt, hzero] at hneg
    rw [Int32.le_iff_toInt_le, Int32.toInt_sub, hone, hzero,
      Int.bmod_eq_of_le (by omega) (by omega)] at hspent
    apply Int32.toInt.inj
    omega
  · rintro rfl
    decide

theorem putChars_spent {s : List UInt8} {precision : Int32} (h : s = [] ∨ precision = 0)
    (width : Int32) (altflag : Bool) : putChars s precision width altflag = ([], width) := by
  cases s with
  | nil => rfl
  | cons c s =>
    obtain rfl : precision = 0 := by simpa using h
    have hneg : ¬ (0 : Int32) < 0 := by decide
    have hspent : ¬ (0 : Int32) ≤ 0 - 1 := by decide
    simp only [putChars_cons, hneg, hspent, if_false]

theorem putChars_ne_nil {s : List UInt8} {precision : Int32} (hs : s ≠ [])
    (hprecision : precision ≠ 0) (width : Int32) (altflag : Bool) :
    (putChars s precision width altflag).1 ≠ [] := by
  cases s with
  | nil => exact absurd rfl hs
  | cons c s =>
    have hmore : ¬ precision < 0 → 0 ≤ precision - 1 := by
      intro hneg
      by_contra hspent
      exact hprecision ((spent_precision_iff precision).mp ⟨hneg, hspent⟩)
    rw [putChars_cons]
    by_cases hneg : precision < 0
    · simp only [hneg, if_true]
      exact List.cons_ne_nil _ _
    · simp only [hneg, hmore hneg, if_false, if_true]
      exact List.cons_ne_nil _ _

theorem strnlen_spent {s : List UInt8} {precision : Int32} (h : s = [] ∨ precision = 0) :
    strnlen s precision.toUInt32.toNat = 0 := by
  rcases h with rfl | rfl
  · exact strnlen_nil _
  · cases s <;> rfl

theorem putLead_spent {d : Directive} {s : List UInt8} (h : s = [] ∨ d.precision = 0) :
    (putLead d s).1 = [] ∧ putPad (putLead d s).2 ' '.toUInt8 = [] ↔ d.width ≤ 0 := by
  rw [putLead_eq, strnlen_spent h, Int32.sub_zero]
  split
  · next hlead =>
    have hfill : ¬ d.width ≤ 0 := Int32.not_le.mpr hlead.1
    simp [putPad_eq_nil_iff, hfill]
  · simp [putPad_eq_nil_iff]

/-- `%s` prints nothing exactly when it has no characters to show and no width
to fill. -/
theorem putString_eq_nil_iff (d : Directive) (s : CString) :
    putString d s = [] ↔ d.width ≤ 0 ∧ (s.bytes = [] ∨ d.precision = 0) := by
  rw [putString_eq]
  by_cases hspent : s.bytes = [] ∨ d.precision = 0
  · simp only [putChars_spent hspent, List.append_nil, List.append_eq_nil_iff, hspent, and_true]
    exact putLead_spent hspent
  · have hchars := putChars_ne_nil (fun h => hspent (.inl h)) (fun h => hspent (.inr h))
    simp [hchars, hspent]

theorem convert_letter_d (d : Directive) (args : Args) (ap : Nat) :
    ∃ shown next, shown ≠ [] ∧ convert 'd'.toUInt8 d args ap = .put shown next := by
  have hprint := printnum_ne_nil
  change ∃ shown next, shown ≠ [] ∧
    (if (getint args ap d.lflag).1 < 0 then Conversion.put _ _ else .put _ _) = .put shown next
  split_ifs
  · exact ⟨_, _, List.cons_ne_nil _ _, rfl⟩
  · exact ⟨_, _, hprint _ _ _ _, rfl⟩

theorem errorString_ne_nil {err : Int32} {p : CString} (h : errorString err = some p) :
    p.bytes ≠ [] := by
  unfold errorString at h
  split_ifs at h
  all_goals
    obtain rfl := Option.some.inj h
    decide

/-- The format `"%s"`. -/
theorem string_prints (p : CString) :
    Prints 2 (.lit "%s") (fun _ => stringArg p) 0 0 (putString {} p) := by
  have hletter : (CString.lit "%s").byteAt 1 = some 's'.toUInt8 := by decide
  have hparse := reswitch_letter hletter (by unfold Modifier; decide)
    (fun _ => stringArg p) {} 0
  have hend : Prints 1 (.lit "%s") (fun _ => stringArg p) 2 1 [] := Prints.nul (by decide)
  have hput := Prints.put (by decide) hparse hend rfl
  rwa [List.append_nil] at hput

/-- The format `"error %d"`. -/
theorem error_prints (args : Args) : ∃ out, out ≠ [] ∧ Prints 8 (.lit "error %d") args 0 0 out := by
  have hletter : (CString.lit "error %d").byteAt 7 = some 'd'.toUInt8 := by decide
  have hparse := reswitch_letter hletter (by unfold Modifier; decide) args {} 0
  obtain ⟨shown, next, hshown, hconvert⟩ := convert_letter_d {} args 0
  have hend : Prints 1 (.lit "error %d") args 8 next [] := Prints.nul (by decide)
  have hput := Prints.put (by decide) hparse hend hconvert
  have hplain : ∀ c ∈ ([0x65, 0x72, 0x72, 0x6F, 0x72, 0x20] : List UInt8),
      c ≠ 0 ∧ c ≠ '%'.toUInt8 := by
    intro c hc
    simp only [List.mem_cons, List.not_mem_nil, or_false] at hc
    rcases hc with rfl | rfl | rfl | rfl | rfl | rfl <;> decide
  have hbytes : (CString.lit "error %d").bytes =
      [0x65, 0x72, 0x72, 0x6F, 0x72, 0x20, '%'.toUInt8, 'd'.toUInt8] := by decide
  have htext : Prints (2 + 6) (.lit "error %d") args 0 0 _ := hput.texts _ hplain (fun i hi => by
    change i < 6 at hi
    unfold CString.byteAt
    rw [hbytes]
    interval_cases i <;> rfl)
  refine ⟨_, ?_, htext⟩
  exact List.append_ne_nil_of_left_ne_nil (by decide) _

theorem errorMessage_prints (err : Int32) :
    ∃ out, out ≠ [] ∧ Prints 8 (errorMessage err).1 (errorMessage err).2 0 0 out := by
  unfold errorMessage
  dsimp only
  split
  · exact error_prints _
  · next p hstring =>
    refine ⟨_, ?_, (string_prints p).mono (by omega)⟩
    rw [ne_eq, putString_eq_nil_iff]
    rintro ⟨-, hempty | hprecision⟩
    · split_ifs at hstring
      all_goals exact errorString_ne_nil hstring hempty
    · exact absurd hprecision (by decide)

/-- A property of places and outputs that every kind of round passes on to the
place where the round starts. -/
structure RoundClosed (fmt : CString) (args : Args) (P : Nat → Nat → List Int32 → Prop) :
    Prop where
  nul {pos ap : Nat} : fmt.byteAt pos = some 0 → P pos ap []
  text {pos ap : Nat} {c : UInt8} {out : List Int32} : fmt.byteAt pos = some c → c ≠ 0 →
    c ≠ '%'.toUInt8 → P (pos + 1) ap out → P pos ap (ucharToInt c :: out)
  put {pos ap pos' ap' next : Nat} {ch : UInt8} {d : Directive} {shown out : List Int32} :
    fmt.byteAt pos = some '%'.toUInt8 →
    reswitch fmt args {} (pos + 1) ap = .ok (ch, d, pos', ap') →
    Parsed fmt (pos + 1) ch pos' → convert ch d args ap' = .put shown next →
    P pos' next out → P pos ap (shown ++ out)
  printfmt {pos ap pos' ap' next : Nat} {ch : UInt8} {d : Directive} {call : CString × Args}
    {shown out : List Int32} : fmt.byteAt pos = some '%'.toUInt8 →
    reswitch fmt args {} (pos + 1) ap = .ok (ch, d, pos', ap') →
    Parsed fmt (pos + 1) ch pos' → convert ch d args ap' = .printfmt call next →
    shown ≠ [] → P pos' next out → P pos ap (shown ++ out)
  unrecognized {pos ap pos' ap' : Nat} {ch : UInt8} {d : Directive} {out : List Int32} :
    fmt.byteAt pos = some '%'.toUInt8 →
    reswitch fmt args {} (pos + 1) ap = .ok (ch, d, pos', ap') →
    Parsed fmt (pos + 1) ch pos' → ¬ Recognized ch → P (pos + 1) ap' out →
    P pos ap (ucharToInt '%'.toUInt8 :: out)

/-- From every place of the format the formatter comes to an end, without a
read outside of the format, and its output has every property that the rounds
pass on. -/
theorem prints_from {fmt : CString} {args : Args} {P : Nat → Nat → List Int32 → Prop}
    (hP : RoundClosed fmt args P) (pos ap : Nat) (hpos : pos ≤ fmt.bytes.length) :
    ∃ out, Prints (fmt.bytes.length - pos + 9) fmt args pos ap out ∧ P pos ap out := by
  induction hrest : fmt.bytes.length - pos using Nat.strong_induction_on generalizing pos ap with
  | _ rest ih =>
    subst hrest
    have hnext : ∀ pos' ap', pos < pos' → pos' ≤ fmt.bytes.length → ∃ out,
        Prints (fmt.bytes.length - pos + 8) fmt args pos' ap' out ∧ P pos' ap' out := by
      intro pos' ap' hlt hle
      obtain ⟨out, hout, hprop⟩ := ih (fmt.bytes.length - pos') (by omega) pos' ap' hle rfl
      exact ⟨out, hout.mono (by omega), hprop⟩
    cases hread : fmt.byteAt pos with
    | none =>
      have hgt := CString.byteAt_eq_none.mp hread
      omega
    | some c =>
      by_cases hnul : c = 0
      · subst hnul
        exact ⟨[], Prints.nul hread, hP.nul hread⟩
      have hlt := CString.lt_of_byteAt hread hnul
      by_cases hpercent : c = '%'.toUInt8
      · subst hpercent
        obtain ⟨ch, d, pos', ap', hparse, hparsed⟩ :=
          reswitch_reaches fmt args {} (pos + 1) ap hlt
        have hbehind := hparsed.behind
        have hle : convert ch d args ap' ≠ .unrecognized → pos' ≤ fmt.bytes.length := by
          intro hletter
          have hlt :=
            CString.lt_of_byteAt hparsed.letter (recognized_of_convert rfl hletter).ne_zero
          omega
        cases hconvert : convert ch d args ap' with
        | put shown next =>
          obtain ⟨out, hout, hprop⟩ := hnext pos' next (by omega) (hle (by simp [hconvert]))
          exact ⟨_, Prints.put hread hparse hout hconvert,
            hP.put hread hparse hparsed hconvert hprop⟩
        | printfmt call next =>
          obtain ⟨out, hout, hprop⟩ := hnext pos' next (by omega) (hle (by simp [hconvert]))
          obtain ⟨shown, hne, hshown⟩ := errorMessage_prints (args ap').word.toInt32
          rw [← convert_printfmt hconvert] at hshown
          exact ⟨_, Prints.printfmt hread hparse hout hconvert (hshown.mono (by omega)),
            hP.printfmt hread hparse hparsed hconvert hne hprop⟩
        | unrecognized =>
          obtain ⟨out, hout, hprop⟩ := hnext (pos + 1) ap' (Nat.lt_succ_self pos) hlt
          have hletter := (convert_unrecognized_iff ch d args ap').mp hconvert
          exact ⟨_, Prints.unrecognized hread hparse hout hparsed hletter,
            hP.unrecognized hread hparse hparsed hletter hprop⟩
      · obtain ⟨out, hout, hprop⟩ := hnext (pos + 1) ap (Nat.lt_succ_self pos) hlt
        exact ⟨_, hout.text hread hnul hpercent, hP.text hread hnul hpercent hprop⟩

theorem RoundClosed.trivial (fmt : CString) (args : Args) :
    RoundClosed fmt args (fun _ _ _ => True) := by
  constructor <;> intros <;> exact True.intro

/-- Some `%` of the format starts a directive that ends in a known letter. -/
def HasDirective (fmt : CString) : Prop :=
  ∃ before mods letter after, fmt.bytes = before ++ '%'.toUInt8 :: (mods ++ letter :: after) ∧
    (∀ m ∈ mods, Modifier m) ∧ Recognized letter

theorem drop_of_modifiers {fmt : CString} {lo : Nat} (k : Nat)
    (h : Modifiers fmt lo (lo + k)) :
    ∃ mods, fmt.bytes.drop lo = mods ++ fmt.bytes.drop (lo + k) ∧ ∀ m ∈ mods, Modifier m := by
  induction k with
  | zero => exact ⟨[], rfl, by simp⟩
  | succ k ih =>
    obtain ⟨mods, hdrop, hmods⟩ := ih (fun i hlo hhi => h i hlo (by omega))
    obtain ⟨c, hread, hc⟩ := h (lo + k) (Nat.le_add_right lo k) (by omega)
    refine ⟨mods ++ [c], ?_, ?_⟩
    · rw [hdrop, CString.drop_of_byteAt hread hc.ne_zero, List.append_assoc]
      rfl
    · intro m hm
      rcases List.mem_append.mp hm with hold | hnew
      · exact hmods m hold
      · rwa [List.mem_singleton.mp hnew]

theorem HasDirective.of_parsed {fmt : CString} {pos pos' : Nat} {ch : UInt8}
    (hread : fmt.byteAt pos = some '%'.toUInt8) (hparsed : Parsed fmt (pos + 1) ch pos')
    (hletter : Recognized ch) : HasDirective fmt := by
  obtain ⟨k, rfl⟩ : ∃ k, pos' = pos + 1 + k + 1 := ⟨pos' - pos - 2, by
    have hbehind := hparsed.behind
    omega⟩
  obtain ⟨mods, hdrop, hmods⟩ := drop_of_modifiers k hparsed.modifiers
  refine ⟨fmt.bytes.take pos, mods, ch, fmt.bytes.drop (pos + 1 + k + 1), ?_, hmods, hletter⟩
  have hch : fmt.byteAt (pos + 1 + k) = some ch := hparsed.letter
  rw [← CString.drop_of_byteAt hch hletter.ne_zero, ← hdrop,
    ← CString.drop_of_byteAt hread (by decide), List.take_append_drop]

/-- Without a complete directive every place prints the rest of the format. -/
theorem RoundClosed.echo {fmt : CString} (hnone : ¬ HasDirective fmt) (args : Args) :
    RoundClosed fmt args (fun pos _ out => out = (fmt.bytes.drop pos).map ucharToInt) where
  nul hread := by
    rw [CString.byteAt_eq_zero hread, List.drop_length]
    rfl
  text hread hnul _ hout := by
    rw [CString.drop_of_byteAt hread hnul, hout]
    rfl
  put hread _ hparsed hconvert _ :=
    absurd (HasDirective.of_parsed hread hparsed
      (recognized_of_convert hconvert (by simp))) hnone
  printfmt hread _ hparsed hconvert _ _ :=
    absurd (HasDirective.of_parsed hread hparsed
      (recognized_of_convert hconvert (by simp))) hnone
  unrecognized hread _ _ _ hout := by
    rw [CString.drop_of_byteAt hread (by decide), hout]
    rfl

/-- The formatter ends on every format and every argument list, reads no byte
behind the NUL of the format, and prints a format without a complete directive
as it stands. -/
theorem vprintfmt_ends_and_echoes (fmt : CString) (args : Args) :
    (∃ out, ∀ fuel, fmt.bytes.length + 9 ≤ fuel → vprintfmt fuel fmt args = .ok out) ∧
      (¬ HasDirective fmt → ∀ fuel, fmt.bytes.length + 9 ≤ fuel →
        vprintfmt fuel fmt args = .ok (fmt.bytes.map ucharToInt)) := by
  constructor
  · obtain ⟨out, hout, -⟩ := prints_from (RoundClosed.trivial fmt args) 0 0 (Nat.zero_le _)
    exact ⟨out, hout⟩
  · intro hnone
    obtain ⟨out, hout, rfl⟩ := prints_from (RoundClosed.echo hnone args) 0 0 (Nat.zero_le _)
    exact hout

/-- The NUL that ends a format after a digit is read and left again. -/
theorem vprintfmt_echoes_dangling_width :
    vprintfmt 20 (.lit "%5") (fun _ => stringArg (.lit "")) =
      .ok (([0x25, 0x35] : List UInt8).map ucharToInt) := by
  have hbytes : (CString.lit "%5").bytes = [0x25, 0x35] := by decide
  have hnone : ¬ HasDirective (.lit "%5") := by
    rintro ⟨before, mods, letter, after, heq, -, hletter⟩
    rw [hbytes] at heq
    have hshort := congrArg List.length heq
    simp only [List.length_append, List.length_cons, List.length_nil] at hshort
    obtain rfl : before = [] := List.length_eq_zero_iff.mp (by omega)
    obtain rfl : mods = [] := List.length_eq_zero_iff.mp (by omega)
    obtain rfl : letter = 0x35 := by
      have htail := (List.cons.inj heq).2
      exact (List.cons.inj htail).1.symm
    revert hletter
    unfold Recognized
    decide
  have hecho := (vprintfmt_ends_and_echoes (.lit "%5") (fun _ => stringArg (.lit ""))).2
    hnone 20 (by rw [hbytes]; decide)
  rwa [hbytes] at hecho

end Jos
