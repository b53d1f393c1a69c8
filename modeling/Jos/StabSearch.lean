import Jos.Kdebug

/-!
The rounds of `stab_binsearch`. Each round either narrows the region or, after
an exact match, looks at the same entry once more with the address increased;
so the loop ends on every table, sorted or not.
-/

namespace Jos

/-- The entry at an index of the table. -/
def stabAt (stabs : List Stab) (i : Int) : Stab :=
  stabs.getD i.toNat ⟨0, 0, 0, 0⟩

theorem readStab_of_lt {stabs : List Stab} {i : Int} (hlo : 0 ≤ i) (hhi : i < stabs.length) :
    readStab stabs i = .ok (stabAt stabs i) := by
  have hlt : i.toNat < stabs.length := by omega
  unfold readStab stabAt
  simp only [hlo, if_true, List.getElem?_eq_getElem hlt, List.getD_eq_getElem?_getD,
    Option.getD_some]

theorem readStab_of_neg {stabs : List Stab} {i : Int} (h : i < 0) :
    readStab stabs i = .error .outside := by
  unfold readStab
  simp only [Int.not_le.mpr h, if_false]

/-- Where a search backwards from `m` to `l` ends. -/
structure SeeksTo (stabs : List Stab) (stop : Stab → Bool) (l m k : Int) : Prop where
  le : k ≤ m
  passed : ∀ i, l ≤ i → k < i → i ≤ m → stop (stabAt stabs i) = false
  ends : (l ≤ k ∧ stop (stabAt stabs k) = true) ∨ (k < l ∧ (k = l - 1 ∨ k = m))

theorem seekBack_ends {stabs : List Stab} (stop : Stab → Bool) {l m : Int} (hl : 0 ≤ l)
    (hm : m < stabs.length) :
    ∃ k, seekBack stabs stop l m = .ok k ∧ SeeksTo stabs stop l m k := by
  induction hcount : (m + 1 - l).toNat generalizing m with
  | zero =>
    have hlt : m < l := by omega
    refine ⟨m, ?_, le_refl m, fun i _ hlt hle => by omega, .inr ⟨hlt, .inr rfl⟩⟩
    rw [seekBack_eq]
    simp only [Int.not_le.mpr hlt, if_false]
  | succ count ih =>
    have hle : l ≤ m := by omega
    rw [seekBack_eq]
    simp only [hle, if_true, readStab_of_lt (le_trans hl hle) hm]
    by_cases hstop : stop (stabAt stabs m) = true
    · rw [if_pos hstop]
      exact ⟨m, rfl, le_refl m, fun i _ hlt hle => by omega, .inl ⟨hle, hstop⟩⟩
    · rw [if_neg hstop]
      obtain ⟨k, hrun, hk⟩ := ih (m := m - 1) (by omega) (by omega)
      refine ⟨k, hrun, by have := hk.le; omega, ?_, ?_⟩
      · intro i hli hki him
        rcases Int.lt_or_eq_of_le him with hlt | rfl
        · exact hk.passed i hli hki (by omega)
        · exact Bool.eq_false_of_not_eq_true hstop
      · rcases hk.ends with hfound | ⟨hlt, hend⟩
        · exact .inl hfound
        · have hkm := hk.le
          refine .inr ⟨hlt, .inl ?_⟩
          omega

namespace Search

variable {stabs : List Stab} {type : UInt8} {s s' : Search}

/-- `(l + r) / 2` -/
def mid (s : Search) : Int := (s.l + s.r).tdiv 2

/-- `m` is the last entry of the type between `l` and the middle. -/
structure Latest (stabs : List Stab) (type : UInt8) (s : Search) (m : Int) : Prop where
  lower : s.l ≤ m
  upper : m ≤ s.mid
  typed : (stabAt stabs m).nType = type
  last : ∀ i, m < i → i ≤ s.mid → (stabAt stabs i).nType ≠ type

/-- What one round can do. -/
inductive Round (stabs : List Stab) (type : UInt8) (s : Search) : Search → Prop
  | absent (h : ∀ i, s.l ≤ i → i ≤ s.mid → (stabAt stabs i).nType ≠ type) :
    Round stabs type s { s with l := s.mid + 1 }
  | below {m : Int} (hm : Latest stabs type s m) (h : (stabAt stabs m).nValue < s.addr) :
    Round stabs type s { s with anyMatches := true, regionLeft := m, l := s.mid + 1 }
  | above {m : Int} (hm : Latest stabs type s m) (h : s.addr < (stabAt stabs m).nValue) :
    Round stabs type s { s with anyMatches := true, regionRight := m - 1, r := m - 1 }
  | exact {m : Int} (hm : Latest stabs type s m) (h : (stabAt stabs m).nValue = s.addr) :
    Round stabs type s
      { s with anyMatches := true, regionLeft := m, l := m, addr := s.addr + 1 }

theorem mid_eq (hl : 0 ≤ s.l) (hle : s.l ≤ s.r) : s.mid = (s.l + s.r) / 2 :=
  Int.tdiv_eq_ediv_of_nonneg (by omega)

theorem step_round (type : UInt8) (hl : 0 ≤ s.l) (hle : s.l ≤ s.r) (hr : s.r < stabs.length) :
    ∃ s', s.step stabs type = .ok s' ∧ Round stabs type s s' := by
  have hmid := mid_eq hl hle
  obtain ⟨m, hseek, hm⟩ := seekBack_ends (hasType type) hl
    (show s.mid < stabs.length by omega)
  have hbind : s.step stabs type = (do
      if m < s.l then return { s with l := s.mid + 1 }
      let stab ← readStab stabs m
      if stab.nValue < s.addr then
        return { s with anyMatches := true, regionLeft := m, l := s.mid + 1 }
      else if s.addr < stab.nValue then
        return { s with anyMatches := true, regionRight := m - 1, r := m - 1 }
      else
        return { s with anyMatches := true, regionLeft := m, l := m, addr := s.addr + 1 }) := by
    unfold step stepBy
    change (do
      let m ← seekBack stabs (hasType type) s.l s.mid
      _) = _
    rw [hseek]
    rfl
  rw [hbind]
  rcases hm.ends with ⟨hlm, hstop⟩ | ⟨hlt, -⟩
  · have hlatest : Latest stabs type s m :=
      ⟨hlm, hm.le, of_decide_eq_true hstop,
        fun i hmi hi => of_decide_eq_false (hm.passed i (by omega) hmi hi)⟩
    have hml := hm.le
    rw [if_neg (by omega), readStab_of_lt (by omega) (by omega)]
    by_cases hbelow : (stabAt stabs m).nValue < s.addr
    · exact ⟨_, if_pos hbelow, .below hlatest hbelow⟩
    by_cases habove : s.addr < (stabAt stabs m).nValue
    · exact ⟨_, (if_neg hbelow).trans (if_pos habove), .above hlatest habove⟩
    have heq : (stabAt stabs m).nValue = s.addr :=
      UInt32.le_antisymm (UInt32.not_lt.mp habove) (UInt32.not_lt.mp hbelow)
    exact ⟨_, (if_neg hbelow).trans (if_neg habove), .exact hlatest heq⟩
  · rw [if_pos hlt]
    exact ⟨_, rfl, .absent (fun i hli hi =>
      of_decide_eq_false (hm.passed i hli (by omega) hi))⟩

/-- A bound on the rounds left: two for each entry of the region, except when
the next round looks again at the entry that has just matched. -/
def roundsLeft (stabs : List Stab) (s : Search) : Nat :=
  2 * (s.r + 1 - s.l).toNat + (if (stabAt stabs s.l).nValue + 1 = s.addr then 0 else 1)

theorem Round.fewer (h : Round stabs type s s') (hl : 0 ≤ s.l) (hle : s.l ≤ s.r) :
    s'.roundsLeft stabs < s.roundsLeft stabs := by
  have hmid := mid_eq hl hle
  cases h with
  | absent =>
    unfold roundsLeft
    split_ifs <;> dsimp only <;> omega
  | below hm =>
    have hlower := hm.lower
    unfold roundsLeft
    split_ifs <;> dsimp only <;> omega
  | above hm =>
    have hlower := hm.lower
    have hupper := hm.upper
    unfold roundsLeft
    split_ifs <;> dsimp only <;> omega
  | @exact m hm hvalue =>
    have hlower := hm.lower
    have hupper := hm.upper
    have hmatched : (stabAt stabs m).nValue + 1 = s.addr + 1 := by rw [hvalue]
    unfold roundsLeft
    simp only [hmatched, if_true]
    rcases Int.lt_or_eq_of_le hlower with hlt | rfl
    · split_ifs <;> omega
    · have hnext : (stabAt stabs s.l).nValue + 1 ≠ s.addr := by
        rw [hvalue]
        exact fun h => by simp at h
      rw [if_neg hnext]
      omega

/-- The loop ends from every state of which `I` holds, in a state of which `I`
holds, when every round preserves `I`. -/
theorem loop_ends {I : Search → Prop}
    (hrange : ∀ s, I s → 0 ≤ s.l ∧ s.r < stabs.length)
    (hround : ∀ s s', I s → s.l ≤ s.r → Round stabs type s s' → I s') (s : Search) (hs : I s) :
    ∃ s', (∀ n, s.roundsLeft stabs < n → loop stabs type n s = .ok s') ∧ I s' ∧ s'.r < s'.l := by
  induction hrounds : s.roundsLeft stabs using Nat.strong_induction_on generalizing s with
  | _ rounds ih =>
    subst hrounds
    by_cases hle : s.l ≤ s.r
    · obtain ⟨hl, hr⟩ := hrange s hs
      obtain ⟨t, hstep, ht⟩ := step_round type hl hle hr
      have hfewer := ht.fewer hl hle
      obtain ⟨s', hloop, hI, hend⟩ := ih _ hfewer t (hround s t hs hle ht) rfl
      refine ⟨s', ?_, hI, hend⟩
      intro n hn
      obtain ⟨k, rfl⟩ : ∃ k, n = k + 1 := ⟨n - 1, by omega⟩
      rw [loop_succ, if_pos hle, hstep]
      exact hloop k (by omega)
    · refine ⟨s, ?_, hs, by omega⟩
      intro n hn
      obtain ⟨k, rfl⟩ : ∃ k, n = k + 1 := ⟨n - 1, by omega⟩
      rw [loop_succ, if_neg hle]

/-- What holds of the search in `[lo, hi]` after every round. -/
structure Within (lo hi : Int) (s : Search) : Prop where
  lower : lo ≤ s.l
  right : s.r = s.regionRight
  right_ge : lo - 1 ≤ s.regionRight
  right_le : s.regionRight ≤ hi
  left_ge : lo ≤ s.regionLeft
  left_le : s.regionLeft ≤ s.l
  left_hi : s.regionLeft ≤ hi
  unmatched : s.anyMatches = false → s.regionLeft = lo

theorem Round.within {lo hi : Int} (hlo : 0 ≤ lo) (h : Round stabs type s s')
    (hs : Within lo hi s) (hle : s.l ≤ s.r) : Within lo hi s' := by
  obtain ⟨hlower, hright, hrightGe, hrightLe, hleftGe, hleftLe, hleftHi, hunmatched⟩ := hs
  have hmid := mid_eq (by omega) hle
  cases h with
  | absent =>
    constructor
    all_goals first | exact hunmatched | (dsimp only; omega)
  | below hm =>
    have hml := hm.lower
    have hmu := hm.upper
    constructor
    all_goals first | (intro h; cases h) | (dsimp only; omega)
  | above hm =>
    have hml := hm.lower
    have hmu := hm.upper
    constructor
    all_goals first | rfl | (intro h; cases h) | (dsimp only; omega)
  | exact hm =>
    have hml := hm.lower
    have hmu := hm.upper
    constructor
    all_goals first | (intro h; cases h) | exact le_refl _ | (dsimp only; omega)

def start (lo hi : Int) (addr : UInt32) : Search :=
  ⟨lo, hi, lo, hi, addr, false⟩

theorem start_within {lo hi : Int} (addr : UInt32) (h : lo ≤ hi) :
    Within lo hi (start lo hi addr) := by
  unfold start
  constructor
  all_goals first | rfl | (intro; rfl) | (dsimp only; omega)

end Search

/-- The search in `[lo, hi]` gives these bounds for every fuel above the number
of its rounds. -/
def Finds (stabs : List Stab) (lo hi : Int) (type : UInt8) (addr : UInt32) (left right : Int) :
    Prop :=
  ∀ n, 2 * (hi + 1 - lo).toNat + 1 < n →
    stabBinsearch n stabs lo hi type addr = .ok (left, right)

theorem Finds.unique {stabs : List Stab} {lo hi a b c d : Int} {type : UInt8} {addr : UInt32}
    (h₁ : Finds stabs lo hi type addr a b) (h₂ : Finds stabs lo hi type addr c d) :
    a = c ∧ b = d := by
  have heq := (h₁ _ (Nat.lt_succ_self _)).symm.trans (h₂ _ (Nat.lt_succ_self _))
  exact Prod.mk.inj (Except.ok.inj heq)

/-- The search in a region of the table ends, with nothing found or with a match;
it has any further property that the rounds preserve. -/
theorem finds_of_inv {stabs : List Stab} {lo hi : Int} {type : UInt8} {addr : UInt32}
    (hlo : 0 ≤ lo) (hle : lo ≤ hi) (hhi : hi < stabs.length) {I : Search → Prop}
    (hstart : I (.start lo hi addr))
    (hround : ∀ s s', I s → Search.Within lo hi s → s.l ≤ s.r →
      Search.Round stabs type s s' → I s') :
    ∃ s left right, Finds stabs lo hi type addr left right ∧ I s ∧ Search.Within lo hi s ∧
      s.r < s.l ∧
      ((s.anyMatches = false ∧ left = s.regionLeft ∧ right = s.regionLeft - 1) ∨
        (s.anyMatches = true ∧ right = s.regionRight ∧
          SeeksTo stabs (hasType type) (s.regionLeft + 1) right left)) := by
  obtain ⟨s, hloop, ⟨hI, hwithin⟩, hend⟩ := @Search.loop_ends stabs type
    (fun s => I s ∧ Search.Within lo hi s)
    (fun s hs => by
      have hlower := hs.2.lower
      have hright := hs.2.right
      have hrightLe := hs.2.right_le
      exact ⟨by omega, by omega⟩)
    (fun s s' hs hle hr => ⟨hround s s' hs.1 hs.2 hle hr, hr.within hlo hs.2 hle⟩)
    (.start lo hi addr) ⟨hstart, Search.start_within addr hle⟩
  have hrun : ∀ n, 2 * (hi + 1 - lo).toNat + 1 < n →
      Search.loop stabs type n (.start lo hi addr) = .ok s := by
    intro n hn
    apply hloop n
    unfold Search.roundsLeft Search.start
    dsimp only
    split_ifs <;> omega
  have hleft := hwithin.left_ge
  have hright := hwithin.right_le
  cases hmatch : s.anyMatches with
  | false =>
    refine ⟨s, s.regionLeft, s.regionLeft - 1, ?_, hI, hwithin, hend, .inl ⟨hmatch, rfl, rfl⟩⟩
    intro n hn
    rw [stabBinsearch_eq]
    rw [show (⟨lo, hi, lo, hi, addr, false⟩ : Search) = .start lo hi addr from rfl, hrun n hn]
    change (if s.anyMatches = true then _ else _) = _
    rw [hmatch]
    rfl
  | true =>
    obtain ⟨k, hseek, hk⟩ := seekBack_ends (hasType type)
      (show 0 ≤ s.regionLeft + 1 by omega) (show s.regionRight < stabs.length by omega)
    refine ⟨s, k, s.regionRight, ?_, hI, hwithin, hend, .inr ⟨hmatch, rfl, hk⟩⟩
    intro n hn
    rw [stabBinsearch_eq]
    rw [show (⟨lo, hi, lo, hi, addr, false⟩ : Search) = .start lo hi addr from rfl, hrun n hn]
    change (if s.anyMatches = true then _ else _) = _
    rw [hmatch]
    change (do
      let l ← seekBack stabs (hasType type) (s.regionLeft + 1) s.regionRight
      return (l, s.regionRight)) = _
    rw [hseek]
    rfl

/-- The bounds that the search in a region of the table returns. -/
theorem finds_bounds {stabs : List Stab} {lo hi : Int} (type : UInt8) (addr : UInt32)
    (hlo : 0 ≤ lo) (hle : lo ≤ hi) (hhi : hi < stabs.length) :
    ∃ left right, Finds stabs lo hi type addr left right ∧
      ((left = lo ∧ right = lo - 1) ∨ (lo - 1 ≤ left ∧ left ≤ right ∧ right ≤ hi)) := by
  obtain ⟨s, left, right, hfinds, -, hs, -, hend⟩ :=
    @finds_of_inv stabs lo hi type addr hlo hle hhi (fun _ => True) trivial
      (fun _ _ _ _ _ _ => trivial)
  refine ⟨left, right, hfinds, ?_⟩
  have hleft := hs.left_ge
  have hrightGe := hs.right_ge
  have hrightLe := hs.right_le
  rcases hend with ⟨hnone, rfl, rfl⟩ | ⟨-, rfl, hseek⟩
  · left
    have hunmatched := hs.unmatched hnone
    omega
  · right
    have hup := hseek.le
    rcases hseek.ends with ⟨hfound, -⟩ | ⟨-, hend | hend⟩
    all_goals omega

end Jos
