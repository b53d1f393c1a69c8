import Jos.StabFound

/-!
The region that `stab_binsearch` reports and reads: it is empty exactly when no entry of
the type lies in it, on any table; and no entry outside is read.
-/

namespace Jos

variable {stabs : List Stab} {lo hi : Int} {type : UInt8} {addr : UInt32} {s : Search}

/-- `stab_binsearch` ends, and it reports that there is no entry exactly when the region
has none of the type. -/
theorem reports_absence_iff (hlo : 0 ≤ lo) (hle : lo ≤ hi) (hhi : hi < stabs.length)
    (type : UInt8) (addr : UInt32) :
    ∃ left right, Finds stabs lo hi type addr left right ∧
      (right < left ↔ ∀ i, ¬ Typed stabs lo hi type i) := by
  obtain ⟨s, left, right, hfinds, hI, hs, hend, hresult⟩ :=
    @finds_of_inv stabs lo hi type addr hlo hle hhi
      (fun s => s.anyMatches = true ∧ (∃ i, Typed stabs lo hi type i) ∨
        s.anyMatches = false ∧ s.r = hi ∧ ∀ i, Typed stabs lo hi type i → s.l ≤ i)
      (.inr ⟨rfl, rfl, fun i hi' => hi'.1⟩)
      (by
        intro s s' h hs hle hround
        cases hround.typed hlo hs hle with
        | absent habsent =>
          refine h.imp_right fun hno => ⟨hno.1, hno.2.1, ?_⟩
          intro i hi'
          have hgt := habsent i hi' (hno.2.2 i hi')
          change s.mid + 1 ≤ i
          omega
        | below hm _ _ _ => exact .inl ⟨rfl, _, hm⟩
        | above hm _ _ _ => exact .inl ⟨rfl, _, hm⟩
        | exact hm _ _ _ => exact .inl ⟨rfl, _, hm⟩)
  refine ⟨left, right, hfinds, ?_⟩
  rcases hI with ⟨hmatch, hsome⟩ | ⟨hmatch, hr, hnone⟩
  · rcases hresult with ⟨hno, -⟩ | ⟨-, -, hseek⟩
    · rw [hmatch] at hno
      cases hno
    · have hup := hseek.le
      exact iff_of_false (by omega) (fun h => hsome.elim h)
  · rcases hresult with ⟨-, rfl, rfl⟩ | ⟨hyes, -⟩
    · refine iff_of_true (by omega) ?_
      intro i hi'
      have hge := hnone i hi'
      have hle' := hi'.2.1
      omega
    · rw [hmatch] at hyes
      cases hyes

theorem reports_absence_iff_adjacent :
    ∃ left right, Finds adjacentStabs 0 1 nSline 0xF left right ∧
      (right < left ↔ ∀ i, ¬ Typed adjacentStabs 0 1 nSline i) :=
  reports_absence_iff (by decide) (by decide) (by decide) nSline 0xF

/-- One function, above the address. -/
theorem higher_entry_reported :
    (∀ i, Typed [⟨0, nFun, 0, 0x10⟩] 0 0 nFun i →
        (0xF : UInt32).toNat < valueAt [⟨0, nFun, 0, 0x10⟩] i) ∧
      Increasing [⟨0, nFun, 0, 0x10⟩] 0 0 nFun ∧
      ∃ left right, Finds [⟨0, nFun, 0, 0x10⟩] 0 0 nFun 0xF left right ∧ ¬ left > right := by
  refine ⟨?_, ?_, ?_⟩
  · rintro i ⟨hi0, hi1, -⟩
    obtain rfl : i = 0 := by omega
    decide
  · rintro i j ⟨hi0, hi1, -⟩ ⟨hj0, hj1, -⟩ hij
    omega
  · obtain ⟨s, left, right, hfinds, hI, -, hend, hresult⟩ :=
      @finds_of_inv [⟨0, nFun, 0, 0x10⟩] 0 0 nFun 0xF (by decide) (by decide) (by decide)
        (fun s => s.anyMatches = true ∨ s = .start 0 0 0xF) (.inr rfl)
        (by
          intro s s' h hs hle hround
          cases hround.typed (by decide) hs hle with
          | absent habsent =>
            refine h.imp_right ?_
            rintro rfl
            exact absurd (habsent 0 ⟨by decide, by decide, rfl⟩ (by decide)) (by decide)
          | below _ _ _ _ => exact .inl rfl
          | above _ _ _ _ => exact .inl rfl
          | exact _ _ _ _ => exact .inl rfl)
    refine ⟨left, right, hfinds, ?_⟩
    rcases hI with hmatch | rfl
    · rcases hresult with ⟨hno, -⟩ | ⟨-, -, hseek⟩
      · rw [hmatch] at hno
        cases hno
      · exact Int.not_lt.mpr hseek.le
    · exact absurd hend (by decide)

/-- The entries of the region only: any other read fails. -/
def readInside (stabs : List Stab) (lo hi i : Int) : Except Fault Stab :=
  if lo ≤ i ∧ i ≤ hi then readStab stabs i else .error .outside

theorem seekBackBy_inside (stop : Stab → Bool) {l m : Int} (hl : lo ≤ l) (hm : m ≤ hi) :
    seekBackBy (readInside stabs lo hi) stop l m = seekBack stabs stop l m := by
  induction hcount : (m + 1 - l).toNat generalizing m with
  | zero => rw [seekBackBy, seekBack_eq, if_neg (by omega), if_neg (by omega)]
  | succ count ih =>
    have hread : readInside stabs lo hi m = readStab stabs m := if_pos ⟨by omega, hm⟩
    have hrest := @ih (m - 1) (by omega) (by omega)
    rw [seekBackBy, seekBack_eq, if_pos (by omega), if_pos (by omega), hread]
    cases readStab stabs m with
    | error e => rfl
    | ok stab => simp only [hrest]

theorem Search.stepBy_inside (hlo : 0 ≤ lo) (hs : Within lo hi s) (hle : s.l ≤ s.r)
    (hhi : hi < stabs.length) :
    s.stepBy (readInside stabs lo hi) type = s.step stabs type := by
  have hlower := hs.lower
  have hright := hs.right
  have hrightLe := hs.right_le
  have hmid := hs.mid_eq hlo hle
  unfold Search.step Search.stepBy
  change (seekBackBy _ (hasType type) s.l s.mid >>= _) = (seekBack _ (hasType type) s.l s.mid >>= _)
  rw [seekBackBy_inside (hasType type) hlower (by omega)]
  obtain ⟨m, hseek, hm⟩ := seekBack_ends (hasType type) (show 0 ≤ s.l by omega)
    (show s.mid < stabs.length by omega)
  rw [hseek]
  change (if m < s.l then _ else readInside stabs lo hi m >>= _) =
    (if m < s.l then _ else readStab stabs m >>= _)
  by_cases hlt : m < s.l
  · rw [if_pos hlt, if_pos hlt]
  · have hml := hm.le
    rw [if_neg hlt, if_neg hlt, readInside, if_pos ⟨by omega, by omega⟩]

theorem Search.loopBy_inside (hlo : 0 ≤ lo) (hhi : hi < stabs.length) (n : Nat)
    (hs : Within lo hi s) :
    loopBy (readInside stabs lo hi) type n s = loop stabs type n s ∧
      ∀ t, loop stabs type n s = .ok t → Within lo hi t := by
  induction n generalizing s with
  | zero => exact ⟨rfl, fun t ht => by cases ht⟩
  | succ n ih =>
    rw [loopBy, loop_succ]
    by_cases hle : s.l ≤ s.r
    · have hlower := hs.lower
      have hright := hs.right
      have hrightLe := hs.right_le
      obtain ⟨t, hstep, hround⟩ := @step_round stabs s type (show 0 ≤ s.l by omega) hle
        (show s.r < stabs.length by omega)
      rw [if_pos hle, if_pos hle, stepBy_inside hlo hs hle hhi, hstep]
      exact ih (hround.within hlo hs hle)
    · rw [if_neg hle, if_neg hle]
      refine ⟨rfl, fun t ht => ?_⟩
      cases ht
      exact hs

/-- The search reads no entry outside of its region. -/
theorem stabBinsearchBy_inside (hlo : 0 ≤ lo) (hle : lo ≤ hi) (hhi : hi < stabs.length)
    (fuel : Nat) (type : UInt8) (addr : UInt32) :
    stabBinsearchBy fuel (readInside stabs lo hi) lo hi type addr =
      stabBinsearch fuel stabs lo hi type addr := by
  have hs : Search.Within lo hi ⟨lo, hi, lo, hi, addr, false⟩ := Search.start_within addr hle
  obtain ⟨hloop, hwithin⟩ := @Search.loopBy_inside stabs lo hi type _ hlo hhi fuel hs
  rw [stabBinsearch_eq, stabBinsearchBy]
  rw [hloop]
  cases hrun : Search.loop stabs type fuel ⟨lo, hi, lo, hi, addr, false⟩ with
  | error e => rfl
  | ok t =>
    have ht := hwithin t hrun
    have hleft := ht.left_ge
    change (if t.anyMatches = true then seekBackBy _ (hasType type) _ _ >>= _ else _) =
      (if t.anyMatches = true then seekBack _ (hasType type) _ _ >>= _ else _)
    rw [seekBackBy_inside (hasType type) (by omega) ht.right_le]

/-- On any table `stab_binsearch` ends, reads only the entries of its region, and returns
bounds in it or just before it. -/
theorem stabBinsearch_stays_in_region (hlo : 0 ≤ lo) (hle : lo ≤ hi) (hhi : hi < stabs.length)
    (type : UInt8) (addr : UInt32) :
    ∃ left right, Finds stabs lo hi type addr left right ∧
      (∀ n, 2 * (hi + 1 - lo).toNat + 1 < n →
        stabBinsearchBy n (readInside stabs lo hi) lo hi type addr = .ok (left, right)) ∧
      lo - 1 ≤ left ∧ left ≤ hi ∧ lo - 1 ≤ right ∧ right ≤ hi := by
  obtain ⟨left, right, hfinds, hbounds⟩ := finds_bounds type addr hlo hle hhi
  refine ⟨left, right, hfinds, ?_, ?_⟩
  · intro n hn
    rw [stabBinsearchBy_inside hlo hle hhi]
    exact hfinds n hn
  · rcases hbounds with ⟨hl, hr⟩ | ⟨hl, hlr, hr⟩
    · omega
    · omega

theorem stabBinsearch_stays_in_region_adjacent :
    ∃ left right, Finds adjacentStabs 0 1 nFun 0xFFFFFFFF left right ∧
      (∀ n, 2 * ((1 : Int) + 1 - 0).toNat + 1 < n →
        stabBinsearchBy n (readInside adjacentStabs 0 1) 0 1 nFun 0xFFFFFFFF =
          .ok (left, right)) ∧
      0 - 1 ≤ left ∧ left ≤ 1 ∧ 0 - 1 ≤ right ∧ right ≤ 1 :=
  stabBinsearch_stays_in_region (by decide) (by decide) (by decide) nFun 0xFFFFFFFF

end Jos
