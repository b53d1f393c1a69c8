import Jos.DirectiveOps

/-!
When no `int` operation of a run of the formatter overflows: what the directives that it comes
to may hold, and what may be passed to them.
-/

namespace Jos

/-- The number that a letter prints, and its base. -/
def printedNumber (ch : UInt8) (args : Args) (ap : Nat) (lflag : Int32) : Option (Base × Nat) :=
  if ch = 'd'.toUInt8 then some (.decimal, (signedArg args ap lflag).natAbs)
  else if ch = 'u'.toUInt8 then some (.decimal, unsignedArg args ap lflag)
  else if ch = 'o'.toUInt8 then some (.octal, unsignedArg args ap lflag)
  else if ch = 'p'.toUInt8 then some (.hexadecimal, (args ap).word.toNat)
  else if ch = 'x'.toUInt8 then some (.hexadecimal, unsignedArg args ap lflag)
  else none

/-- What the argument of a conversion may be, or its width. -/
def ConversionTame (ch : UInt8) (d : Directive) (args : Args) (ap : Nat) : Prop :=
  if ch = 'e'.toUInt8 then (args ap).word.toInt32 ≠ Int32.minValue
  else if ch = 's'.toUInt8 then
    StringTame d (if (args ap).word = 0 then .lit "(null)" else (args ap).str)
  else ∀ base n, printedNumber ch args ap d.lflag = some (base, n) →
    (digitText base.val.toNat n).length ≤ d.width.toInt + 2 ^ 31

section

variable {ch : UInt8} {d : Directive} {args : Args} {ap : Nat}

theorem allInt_errorOps (err : Int32) : AllInt (errorOps err) ↔ err ≠ Int32.minValue := by
  have hzero : (0 : Int32).toInt = 0 := rfl
  have hmin : Int32.minValue.toInt = -2 ^ 31 := rfl
  have hlow := err.le_toInt
  have hhigh := err.toInt_lt
  have hne : err ≠ Int32.minValue ↔ err.toInt ≠ -2 ^ 31 := by
    rw [← hmin, ne_eq, ne_eq, Int32.toInt_inj]
  unfold errorOps
  rw [hne]
  split
  · next hneg =>
    rw [Int32.lt_iff_toInt_lt, hzero] at hneg
    simp only [allInt_cons, allInt_nil, and_true, IsInt]
    omega
  · next hneg =>
    rw [Int32.lt_iff_toInt_lt, hzero] at hneg
    exact iff_of_true allInt_nil (by omega)

/-- `err < 0 ? -err : err`, as `%e` computes it. -/
theorem toInt_abs {err : Int32} (h : err ≠ Int32.minValue) :
    (if err < 0 then -err else err).toInt = err.toInt.natAbs := by
  have hzero : (0 : Int32).toInt = 0 := rfl
  have hmin : Int32.minValue.toInt = -2 ^ 31 := rfl
  have hlow := err.le_toInt
  have hhigh := err.toInt_lt
  have hne : err.toInt ≠ -2 ^ 31 := fun heq => h (Int32.toInt.inj (heq.trans hmin.symm))
  split
  · next hneg =>
    rw [Int32.lt_iff_toInt_lt, hzero] at hneg
    rw [Int32.toInt_neg, Int.bmod_eq_of_le (by omega) (by omega)]
    omega
  · next hneg =>
    rw [Int32.lt_iff_toInt_lt, hzero] at hneg
    omega

theorem errorIndex_bounds {err i : Int32} (h : err ≠ Int32.minValue)
    (hi : errorIndex err = some i) : 0 ≤ i.toInt ∧ i.toInt < maxError.toInt := by
  have habs := toInt_abs h
  unfold errorIndex at hi
  generalize (if err < 0 then -err else err) = index at hi habs
  dsimp only at hi
  split at hi
  · cases hi
  · next hsmall =>
    obtain rfl := Option.some.inj hi
    rw [Int32.le_iff_toInt_le] at hsmall
    omega

/-- An error and its negation are one error. -/
theorem errorMessage_neg (err : Int32) : errorMessage (-err) = errorMessage err := by
  have habs : (if -err < 0 then - -err else -err) = if err < 0 then -err else err := by
    by_cases hmin : err = Int32.minValue
    · subst hmin
      decide
    · have hneg : -err ≠ Int32.minValue := by
        intro heq
        rw [← Int32.neg_neg (a := err), heq] at hmin
        exact hmin (by decide)
      have hlow := err.le_toInt
      have hhigh := err.toInt_lt
      have hne : err.toInt ≠ -2 ^ 31 := fun heq => hmin (Int32.toInt.inj heq)
      apply Int32.toInt.inj
      rw [toInt_abs hneg, toInt_abs hmin, Int32.toInt_neg, Int.bmod_eq_of_le (by omega) (by omega)]
      omega
  unfold errorMessage
  rw [habs]

theorem allInt_convertOps (ch : UInt8) (d : Directive) (args : Args) (ap : Nat) :
    AllInt (convertOps ch d args ap) ↔ ConversionTame ch d args ap := by
  have hnumber : ∀ {num : UInt64} {base : Base} {n : Nat}, num.toNat = n →
      (AllInt (printnumOps num base d.width) ↔ ∀ base' n', some (base, n) = some (base', n') →
        (digitText base'.val.toNat n').length ≤ d.width.toInt + 2 ^ 31) := by
    intro num base n hnum
    rw [allInt_printnumOps, hnum]
    constructor
    · rintro hlength base' n' heq
      cases heq
      exact hlength
    · exact fun hall => hall base n rfl
  by_cases he : ch = 'e'.toUInt8
  · subst he
    exact allInt_errorOps _
  by_cases hs : ch = 's'.toUInt8
  · subst hs
    exact allInt_putStringOps d _
  unfold ConversionTame
  rw [if_neg he, if_neg hs]
  by_cases hd : ch = 'd'.toUInt8
  · subst hd
    have hops : convertOps 'd'.toUInt8 d args ap = printnumOps
        (if (getint args ap d.lflag).1 < 0 then -(getint args ap d.lflag).1
          else (getint args ap d.lflag).1).toUInt64 .decimal d.width := rfl
    rw [hops]
    apply hnumber
    rw [← getint_toInt]
    split
    · next hneg => exact natAbs_of_neg hneg
    · next hneg => exact natAbs_of_not_neg hneg
  by_cases hu : ch = 'u'.toUInt8
  · subst hu
    exact hnumber (getuint_toNat args ap d.lflag)
  by_cases ho : ch = 'o'.toUInt8
  · subst ho
    exact hnumber (getuint_toNat args ap d.lflag)
  by_cases hp : ch = 'p'.toUInt8
  · subst hp
    exact hnumber (UInt32.toNat_toUInt64 _)
  by_cases hx : ch = 'x'.toUInt8
  · subst hx
    exact hnumber (getuint_toNat args ap d.lflag)
  unfold convertOps printedNumber
  simp only [he, hs, hd, hu, ho, hp, hx, if_false]
  refine iff_of_true ?_ nofun
  split <;> exact allInt_nil

end

/-- A place where the main loop has come to a `%`. -/
structure Round where
  fmt : CString
  args : Args
  pos : Nat
  ap : Nat
  percent : fmt.byteAt pos = some '%'.toUInt8

/-- The directives that the main loop comes to, those of the nested `printfmt` with them. -/
def rounds : Nat → CString → Args → Nat → Nat → List Round
  | 0, _, _, _, _ => []
  | n + 1, fmt, args, pos, ap =>
    match hread : fmt.byteAt pos with
    | none => []
    | some ch =>
      if ch = 0 then []
      else if hpercent : ch = '%'.toUInt8 then
        ⟨fmt, args, pos, ap, hpercent ▸ hread⟩ ::
          match reswitch fmt args {} (pos + 1) ap with
          | .error _ => []
          | .ok (ch, d, pos, ap) =>
            match convert ch d args ap with
            | .put _ ap => rounds n fmt args pos ap
            | .printfmt call ap => rounds n call.1 call.2 0 0 ++ rounds n fmt args pos ap
            | .unrecognized =>
              match rewind fmt (pos - 1) with
              | .error _ => []
              | .ok pos => rounds n fmt args pos ap
      else rounds n fmt args (pos + 1) ap

namespace Round

/-- No `int` operation of the directive overflows; `%e` stays within `error_string`, and prints
`-err` as it prints `err`. -/
def Sound (r : Round) : Prop :=
  AllInt (reswitchOps r.fmt r.args {} (r.pos + 1) r.ap) ∧
    ∀ ch d pos ap, reswitch r.fmt r.args {} (r.pos + 1) r.ap = .ok (ch, d, pos, ap) →
      AllInt (convertOps ch d r.args ap) ∧
      (ch = 'e'.toUInt8 →
        (∀ i, errorIndex (r.args ap).word.toInt32 = some i → 0 ≤ i.toInt ∧
          i.toInt < maxError.toInt) ∧
        errorMessage (-(r.args ap).word.toInt32) = errorMessage (r.args ap).word.toInt32)

/-- The numbers of the directive are at most `2 ^ 31 - 49`, its `l`s are fewer than `2 ^ 31`,
and its conversion gets a width and an argument that it can count with. -/
def Tame (r : Round) : Prop :=
  TextTame r.fmt (r.pos + 1) 0 ∧
    ∀ ch d pos ap, reswitch r.fmt r.args {} (r.pos + 1) r.ap = .ok (ch, d, pos, ap) →
      ConversionTame ch d r.args ap

theorem sound_iff_tame (r : Round) : r.Sound ↔ r.Tame := by
  have hpos : r.pos + 1 ≤ r.fmt.bytes.length := CString.lt_of_byteAt r.percent (by decide)
  unfold Sound Tame
  refine and_congr (allInt_reswitchOps hpos rfl) ?_
  refine forall_congr' fun ch => forall_congr' fun d => forall_congr' fun pos =>
    forall_congr' fun ap => forall_congr' fun _ => ?_
  rw [allInt_convertOps]
  constructor
  · exact fun h => h.1
  · intro htame
    refine ⟨htame, ?_⟩
    rintro rfl
    exact ⟨fun i hi => errorIndex_bounds htame hi, errorMessage_neg _⟩

theorem mem_rounds (r : Round) (n : Nat) : r ∈ rounds (n + 1) r.fmt r.args r.pos r.ap := by
  have hpercent := r.percent
  rw [rounds]
  split
  · next hnone =>
    rw [hpercent] at hnone
    cases hnone
  · next ch hread =>
    rw [hpercent] at hread
    obtain rfl := Option.some.inj hread
    rw [if_neg (by decide), dif_pos rfl]
    exact List.mem_cons_self

end Round

theorem Round.tame_of_letter {r : Round} {ch : UInt8} (hread : r.fmt.byteAt (r.pos + 1) = some ch)
    (hmod : ¬ Modifier ch) (h : ConversionTame ch {} r.args r.ap) : r.Tame := by
  refine ⟨textTame_letter hread hmod (by decide), ?_⟩
  intro ch' d pos ap hparse
  rw [reswitch_letter hread hmod] at hparse
  cases hparse
  exact h

/-- All the directives that a run comes to from a place on have a property. -/
def AllRounds (p : Round → Prop) (fmt : CString) (args : Args) (pos ap : Nat) : Prop :=
  ∀ n, ∀ r ∈ rounds n fmt args pos ap, p r

namespace AllRounds

variable {p : Round → Prop} {fmt : CString} {args : Args} {pos ap : Nat}

theorem nul (hread : fmt.byteAt pos = some 0) : AllRounds p fmt args pos ap := by
  intro n r hr
  cases n with
  | zero => cases hr
  | succ n =>
    rw [rounds] at hr
    split at hr
    · cases hr
    · next ch hsome =>
      rw [hread] at hsome
      obtain rfl := Option.some.inj hsome
      rw [if_pos rfl] at hr
      cases hr

theorem text {c : UInt8} (h : AllRounds p fmt args (pos + 1) ap)
    (hread : fmt.byteAt pos = some c) (hnul : c ≠ 0) (hpercent : c ≠ '%'.toUInt8) :
    AllRounds p fmt args pos ap := by
  intro n r hr
  cases n with
  | zero => cases hr
  | succ n =>
    rw [rounds] at hr
    split at hr
    · cases hr
    · next ch hsome =>
      rw [hread] at hsome
      obtain rfl := Option.some.inj hsome
      rw [if_neg hnul, dif_neg hpercent] at hr
      exact h n r hr

theorem texts (cs : List UInt8) (hplain : ∀ c ∈ cs, c ≠ 0 ∧ c ≠ '%'.toUInt8)
    (hread : StandsIn fmt pos cs) (h : AllRounds p fmt args (pos + cs.length) ap) :
    AllRounds p fmt args pos ap := by
  induction cs generalizing pos with
  | nil => exact h
  | cons c cs ih =>
    obtain ⟨hnul, hpercent⟩ := hplain c List.mem_cons_self
    have hlength : pos + (c :: cs).length = pos + 1 + cs.length := by
      rw [List.length_cons]
      omega
    rw [hlength] at h
    have hrest := ih (fun e he => hplain e (List.mem_cons_of_mem c he)) hread.tail h
    exact hrest.text hread.head hnul hpercent

/-- A conversion that prints and calls no `printfmt`. -/
theorem put {ch : UInt8} {d : Directive} {pos' ap' next : Nat} {shown : List Int32}
    (hread : fmt.byteAt pos = some '%'.toUInt8) (hround : p ⟨fmt, args, pos, ap, hread⟩)
    (hparse : reswitch fmt args {} (pos + 1) ap = .ok (ch, d, pos', ap'))
    (hconvert : convert ch d args ap' = .put shown next) (h : AllRounds p fmt args pos' next) :
    AllRounds p fmt args pos ap := by
  intro n r hr
  cases n with
  | zero => cases hr
  | succ n =>
    rw [rounds] at hr
    split at hr
    · cases hr
    · next c hsome =>
      have hpercent := Option.some.inj (hread.symm.trans hsome)
      subst hpercent
      rw [if_neg (by decide), dif_pos rfl, hparse] at hr
      rcases List.mem_cons.mp hr with rfl | hrest
      · exact hround
      · dsimp only at hrest
        rw [hconvert] at hrest
        exact h n r hrest

end AllRounds

theorem errorString_short {err : Int32} {p : CString} (h : errorString err = some p) :
    p.bytes.length < 32 := by
  unfold errorString at h
  split_ifs at h
  all_goals
    obtain rfl := Option.some.inj h
    decide

theorem stringMessage_tame {p : CString} (hshort : p.bytes.length < 32) :
    AllRounds Round.Tame (.lit "%s") (fun _ => stringArg p) 0 0 := by
  have hread : StandsIn (.lit "%s") 0 [0x25, 0x73] := Spelling.standsIn_bytes (by decide)
  have hletter : ¬ Modifier 's'.toUInt8 := by decide
  have hparse := reswitch_letter hread.tail.head hletter (fun _ => stringArg p) {} 0
  have hlead : ¬ (0 < ({} : Directive).width ∧ ({} : Directive).padc ≠ '-'.toUInt8) := by decide
  have hwidth : ({} : Directive).width.toInt = -1 := rfl
  have htame : StringTame {} p := by
    unfold StringTame
    rw [if_neg hlead, hwidth]
    change (p.bytes.length : Int) ≤ _
    omega
  exact .put hread.head (Round.tame_of_letter hread.tail.head hletter htame) hparse rfl
    (.nul (by decide))

theorem numberMessage_tame (args : Args) :
    AllRounds Round.Tame (.lit "error %d") args 0 0 := by
  have hread : StandsIn (.lit "error %d") 0
      ([0x65, 0x72, 0x72, 0x6F, 0x72, 0x20] ++ [0x25, 0x64]) :=
    Spelling.standsIn_bytes (by decide)
  have hletter : ¬ Modifier 'd'.toUInt8 := by decide
  have hdirective : StandsIn (.lit "error %d") 6 [0x25, 0x64] := hread.right
  have hparse := reswitch_letter hdirective.tail.head hletter args {} 0
  have hwidth : ({} : Directive).width.toInt = -1 := rfl
  obtain ⟨num, next, hnum, hconvert⟩ := convert_numeric (.inl ⟨rfl, rfl⟩) {} args 0
  have htame : ConversionTame 'd'.toUInt8 {} args 0 := by
    intro base n heq
    obtain ⟨rfl, rfl⟩ := Prod.mk.inj (Option.some.inj heq)
    have hlength := digitText_length .decimal num
    rw [hnum] at hlength
    change (digitText 10 (signedArg args 0 0).natAbs).length ≤ 64 at hlength
    change ((digitText 10 (signedArg args 0 0).natAbs).length : Int) ≤ _
    rw [hwidth]
    omega
  have hplain : ∀ c ∈ ([0x65, 0x72, 0x72, 0x6F, 0x72, 0x20] : List UInt8),
      c ≠ 0 ∧ c ≠ '%'.toUInt8 := by
    intro c hc
    simp only [List.mem_cons, List.not_mem_nil, or_false] at hc
    rcases hc with rfl | rfl | rfl | rfl | rfl | rfl <;> decide
  refine .texts [0x65, 0x72, 0x72, 0x6F, 0x72, 0x20] hplain hread.left ?_
  exact .put hdirective.head (Round.tame_of_letter hdirective.tail.head hletter htame) hparse
    hconvert (.nul (by decide))

/-- The two formats of `%e` have one directive each, without a width. -/
theorem errorMessage_tame (err : Int32) :
    AllRounds Round.Tame (errorMessage err).1 (errorMessage err).2 0 0 := by
  unfold errorMessage
  generalize (if err < 0 then -err else err) = index
  dsimp only
  split
  · exact numberMessage_tame _
  · next p hstring =>
    split at hstring
    · cases hstring
    · exact stringMessage_tame (errorString_short hstring)

/-- A run comes to directives of its own format, and to those of the messages of `%e`. -/
theorem own_or_tame (fmt : CString) (args : Args) (pos ap : Nat) :
    AllRounds (fun r => (r.fmt = fmt ∧ r.args = args) ∨ r.Tame) fmt args pos ap := by
  intro n
  induction n generalizing pos ap with
  | zero => exact nofun
  | succ n ih =>
    rw [rounds]
    split
    · exact nofun
    · next ch hread =>
      split
      · exact nofun
      · split
        · next hpercent =>
          rw [List.forall_mem_cons]
          refine ⟨.inl ⟨rfl, rfl⟩, ?_⟩
          split
          · exact nofun
          · next ch d pos' ap' _ =>
            split
            · exact ih _ _
            · next call next hconvert =>
              intro r hr
              rcases List.mem_append.mp hr with hmessage | hrest
              · rw [convert_printfmt hconvert] at hmessage
                exact .inr (errorMessage_tame _ n r hmessage)
              · exact ih _ _ r hrest
            · split
              · exact nofun
              · exact ih _ _
        · exact ih _ _

/-- In every run of the formatter the arithmetic is sound, in the messages of `%e` as well,
exactly when each directive of the format that the run comes to is tame. -/
theorem formatter_arith_iff (fmt : CString) (args : Args) :
    AllRounds Round.Sound fmt args 0 0 ↔
      AllRounds (fun r => r.fmt = fmt → r.args = args → r.Tame) fmt args 0 0 := by
  constructor
  · exact fun h n r hr _ _ => r.sound_iff_tame.mp (h n r hr)
  · intro h n r hr
    rcases own_or_tame fmt args 0 0 n r hr with ⟨hfmt, hargs⟩ | htame
    · exact r.sound_iff_tame.mpr (h n r hr hfmt hargs)
    · exact r.sound_iff_tame.mpr htame

/-- `%e` of the least `int` negates it, which is no `int`, and the index of `error_string` is below
its first entry. -/
theorem least_error_overflows :
    ¬ AllRounds Round.Sound (.lit "%e") (fun _ => ⟨0x80000000, .lit ""⟩) 0 0 := by
  intro hall
  have hread : StandsIn (.lit "%e") 0 [0x25, 0x65] := Spelling.standsIn_bytes (by decide)
  let r : Round := ⟨.lit "%e", fun _ => ⟨0x80000000, .lit ""⟩, 0, 0, hread.head⟩
  have hsound := hall 1 r (r.mem_rounds 0)
  have hparse := reswitch_letter hread.tail.head (by decide) r.args {} 0
  have hindex := (hsound.2 _ _ _ _ hparse).2 rfl
  have hleast : errorIndex (0x80000000 : UInt32).toInt32 = some Int32.minValue := by decide
  have hlow := (hindex.1 Int32.minValue hleast).1
  revert hlow
  decide

end Jos
