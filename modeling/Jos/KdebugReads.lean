import Jos.StabSearch

/-!
Which entries `debuginfo_eip` reads. A search of `[lo, hi]` can return `lo - 1`:
every entry of the type that it meets on its way to `lo` lies above the address.
The next search, or the lookup of the line, then starts outside of the table.
-/

namespace Jos

/-- `m` is the last entry of the type from `lo` up to `hi`. -/
structure LastTyped (stabs : List Stab) (type : UInt8) (lo hi m : Int) : Prop where
  lower : lo ≤ m
  upper : m ≤ hi
  typed : (stabAt stabs m).nType = type
  last : ∀ i, m < i → i ≤ hi → (stabAt stabs i).nType ≠ type

theorem LastTyped.unique {stabs : List Stab} {type : UInt8} {lo hi m k : Int}
    (hm : LastTyped stabs type lo hi m) (hk : LastTyped stabs type lo hi k) : m = k := by
  by_contra hne
  rcases lt_or_gt_of_ne hne with hlt | hgt
  · exact hm.last k hlt hk.upper hk.typed
  · exact hk.last m hgt hm.upper hm.typed

/-- Halving `[lo, r]` leads down to `lo`: the last entry of the type in the lower
half lies above the address, and so on below it; `lo` itself is of the type and
lies above the address, or equals the greatest address. -/
inductive Falls (stabs : List Stab) (type : UInt8) (addr : UInt32) (lo : Int) : Int → Prop
  | bottom {r : Int} (hm : LastTyped stabs type lo ((lo + r) / 2) lo)
      (h : addr < (stabAt stabs lo).nValue ∨
        ((stabAt stabs lo).nValue = addr ∧ addr + 1 = 0)) : Falls stabs type addr lo r
  | above {r m : Int} (hm : LastTyped stabs type lo ((lo + r) / 2) m) (hlt : lo < m)
      (h : addr < (stabAt stabs m).nValue) (hrest : Falls stabs type addr lo (m - 1)) :
      Falls stabs type addr lo r

section

variable {stabs : List Stab} {type : UInt8} {addr : UInt32} {lo hi r : Int}

theorem Falls.typed_low (h : Falls stabs type addr lo r) : (stabAt stabs lo).nType = type := by
  induction h with
  | bottom hm => exact hm.typed
  | above _ _ _ _ ih => exact ih

theorem Falls.le (h : Falls stabs type addr lo r) : lo ≤ r := by
  cases h with
  | bottom hm =>
    have hupper := hm.upper
    omega
  | above hm =>
    have hlower := hm.lower
    have hupper := hm.upper
    omega

theorem Falls.low_value (h : Falls stabs type addr lo r) :
    addr < (stabAt stabs lo).nValue ∨ ((stabAt stabs lo).nValue = addr ∧ addr + 1 = 0) := by
  induction h with
  | bottom _ h => exact h
  | above _ _ _ _ ih => exact ih

/-- In a region of one entry. -/
theorem falls_single_iff : Falls stabs type addr lo lo ↔
    (stabAt stabs lo).nType = type ∧ (addr < (stabAt stabs lo).nValue ∨
      ((stabAt stabs lo).nValue = addr ∧ addr + 1 = 0)) := by
  have hmid : (lo + lo) / 2 = lo := by omega
  constructor
  · intro h
    exact ⟨h.typed_low, h.low_value⟩
  · rintro ⟨htype, h⟩
    refine .bottom ⟨le_refl lo, ?_, htype, ?_⟩ h
    · omega
    · intro i hlt hle
      omega

theorem latest_iff {s : Search} (hl : 0 ≤ s.l) (hle : s.l ≤ s.r) {m : Int}
    (hm : Search.Latest stabs type s m) : LastTyped stabs type s.l ((s.l + s.r) / 2) m := by
  have hmid := Search.mid_eq hl hle
  have hupper := hm.upper
  exact ⟨hm.lower, by omega, hm.typed, fun i hlt hi => hm.last i hlt (by omega)⟩

theorem not_succ_lt (h : addr + 1 ≠ 0) : ¬ addr + 1 < addr := by
  intro hlt
  apply h
  apply UInt32.toNat_inj.mp
  have hnat := UInt32.lt_iff_toNat_lt.mp hlt
  have hone : (1 : UInt32).toNat = 1 := rfl
  have hbound := addr.toNat_lt
  rw [UInt32.toNat_add, hone] at hnat ⊢
  have hzero : (0 : UInt32).toNat = 0 := rfl
  omega

theorem zero_lt_of_succ_eq_zero (h : addr + 1 = 0) : 0 < addr := by
  apply UInt32.lt_iff_toNat_lt.mpr
  have hnat := congrArg UInt32.toNat h
  have hone : (1 : UInt32).toNat = 1 := rfl
  have hzero : (0 : UInt32).toNat = 0 := rfl
  rw [UInt32.toNat_add, hone, hzero] at hnat
  rw [hzero]
  omega

theorem not_lt_of_succ_eq_zero (h : addr + 1 = 0) (v : UInt32) : ¬ addr < v := by
  intro hlt
  have hnat := congrArg UInt32.toNat h
  have hone : (1 : UInt32).toNat = 1 := rfl
  have hzero : (0 : UInt32).toNat = 0 := rfl
  rw [UInt32.toNat_add, hone, hzero] at hnat
  have hbound := v.toNat_lt
  have hltNat := UInt32.lt_iff_toNat_lt.mp hlt
  omega

theorem ne_max_sub (h : addr + 1 = 0) (v : UInt32) : v ≠ addr - v := by
  intro heq
  have hsum : v + v + 1 = 0 := by
    have hv : v + v = addr := by
      calc v + v = (addr - v) + v := by rw [← heq]
        _ = addr := UInt32.sub_add_cancel addr v
    rw [hv, h]
  have hnat := congrArg UInt32.toNat hsum
  have hone : (1 : UInt32).toNat = 1 := rfl
  have hzero : (0 : UInt32).toNat = 0 := rfl
  rw [UInt32.toNat_add, UInt32.toNat_add, hone, hzero] at hnat
  omega

/-- The states on the way down to `lo`. -/
def FallsTo (stabs : List Stab) (type : UInt8) (addr : UInt32) (lo : Int) (s : Search) : Prop :=
  s.r = lo - 1 ∨
    (s.l = lo ∧ s.addr = addr ∧ Falls stabs type addr lo s.r) ∨
    (s.l = lo ∧ s.addr = 0 ∧ LastTyped stabs type lo ((lo + s.r) / 2) lo ∧
      0 < (stabAt stabs lo).nValue)

theorem FallsTo.round {s s' : Search} (hlo : 0 ≤ lo) (hs : FallsTo stabs type addr lo s)
    (hle : s.l ≤ s.r) (hlower : lo ≤ s.l) (h : Search.Round stabs type s s') :
    FallsTo stabs type addr lo s' := by
  have hmid := Search.mid_eq (by omega) hle
  rcases hs with hdone | ⟨rfl, rfl, hfalls⟩ | ⟨rfl, haddr, hlast, hpos⟩
  · omega
  · cases h with
    | absent hnone =>
      have hmiss := hnone s.l (le_refl _) (by omega)
      exact absurd hfalls.typed_low hmiss
    | below hm hv =>
      have hm' := latest_iff hlo hle hm
      cases hfalls with
      | bottom hlast h =>
        obtain rfl := hm'.unique hlast
        rcases h with hgt | ⟨heq, -⟩
        · exact absurd hv (UInt32.lt_asymm hgt)
        · exact absurd hv (heq ▸ UInt32.lt_irrefl _)
      | above hlast _ hgt =>
        obtain rfl := hm'.unique hlast
        exact absurd hv (UInt32.lt_asymm hgt)
    | above hm hv =>
      have hm' := latest_iff hlo hle hm
      cases hfalls with
      | bottom hlast _ =>
        obtain rfl := hm'.unique hlast
        exact .inl rfl
      | above hlast _ _ hrest =>
        obtain rfl := hm'.unique hlast
        exact .inr (.inl ⟨rfl, rfl, hrest⟩)
    | exact hm hv =>
      have hm' := latest_iff hlo hle hm
      cases hfalls with
      | bottom hlast h =>
        obtain rfl := hm'.unique hlast
        rcases h with hgt | ⟨heq, hwrap⟩
        · exact absurd hgt (hv ▸ UInt32.lt_irrefl _)
        · refine .inr (.inr ⟨rfl, hwrap, hlast, ?_⟩)
          rw [heq]
          exact zero_lt_of_succ_eq_zero hwrap
      | above hlast _ hgt =>
        obtain rfl := hm'.unique hlast
        exact absurd hgt (hv ▸ UInt32.lt_irrefl _)
  · cases h with
    | absent hnone =>
      exact absurd hlast.typed (hnone _ (le_refl _) (by omega))
    | below hm hv =>
      rw [haddr] at hv
      exact absurd hv UInt32.not_lt_zero
    | above hm hv =>
      obtain rfl := (latest_iff hlo hle hm).unique hlast
      exact .inl rfl
    | exact hm hv =>
      obtain rfl := (latest_iff hlo hle hm).unique hlast
      rw [hv, haddr] at hpos
      exact absurd hpos (UInt32.lt_irrefl _)

/-- The states that have left the way down to `lo`, or are about to. -/
structure Stays (stabs : List Stab) (type : UInt8) (addr : UInt32) (lo : Int) (s : Search) :
    Prop where
  right : lo ≤ s.r
  cases : lo + 1 ≤ s.l ∨
    (s.l = lo ∧ s.addr = addr ∧ ¬ Falls stabs type addr lo s.r) ∨
    (s.l = lo ∧ s.addr = addr + 1 ∧ addr + 1 ≠ 0 ∧
      LastTyped stabs type lo ((lo + s.r) / 2) lo ∧ (stabAt stabs lo).nValue = addr)

theorem Stays.round {s s' : Search} (hlo : 0 ≤ lo) (hs : Stays stabs type addr lo s)
    (hle : s.l ≤ s.r) (hlower : lo ≤ s.l) (h : Search.Round stabs type s s') :
    Stays stabs type addr lo s' := by
  have hmid := Search.mid_eq (by omega) hle
  have hright := hs.right
  cases h with
  | absent hnone => exact ⟨hright, .inl (by dsimp only; omega)⟩
  | below hm hv => exact ⟨hright, .inl (by dsimp only; omega)⟩
  | @above m hm hv =>
    have hml := hm.lower
    rcases hs.cases with hleft | ⟨rfl, rfl, hfalls⟩ | ⟨rfl, haddr, hwrap, hlast, hvalue⟩
    · exact ⟨by dsimp only; omega, .inl hleft⟩
    · have hm' := latest_iff hlo hle hm
      rcases Int.lt_or_eq_of_le hml with hlt | rfl
      · refine ⟨by dsimp only; omega, .inr (.inl ⟨rfl, rfl, ?_⟩)⟩
        exact fun hrest => hfalls (.above hm' hlt hv hrest)
      · exact absurd (.bottom hm' (.inl hv)) hfalls
    · obtain rfl := (latest_iff hlo hle hm).unique hlast
      rw [haddr, hvalue] at hv
      exact absurd hv (not_succ_lt hwrap)
  | @exact m hm hv =>
    have hml := hm.lower
    rcases hs.cases with hleft | ⟨rfl, rfl, hfalls⟩ | ⟨rfl, haddr, hwrap, hlast, hvalue⟩
    · exact ⟨hright, .inl (by dsimp only; omega)⟩
    · have hm' := latest_iff hlo hle hm
      rcases Int.lt_or_eq_of_le hml with hlt | rfl
      · exact ⟨hright, .inl (by dsimp only; omega)⟩
      · refine ⟨hright, .inr (.inr ⟨rfl, rfl, ?_, hm', hv⟩)⟩
        exact fun hwrap => hfalls (.bottom hm' (.inr ⟨hv, hwrap⟩))
    · obtain rfl := (latest_iff hlo hle hm).unique hlast
      rw [haddr, hvalue] at hv
      exact absurd hv (by simp)

/-- A search that falls returns bounds below its region. -/
theorem Falls.finds {left right : Int} (hfalls : Falls stabs type addr lo hi) (hlo : 0 ≤ lo)
    (hhi : hi < stabs.length) (h : Finds stabs lo hi type addr left right) :
    left = lo - 1 ∧ right = lo - 1 := by
  have hle := hfalls.le
  obtain ⟨s, a, b, hfinds, hI, hs, hend, hresult⟩ :=
    @finds_of_inv stabs lo hi type addr hlo hle hhi
      (fun s => FallsTo stabs type addr lo s ∧ (s.anyMatches = false → s.r = hi))
      ⟨.inr (.inl ⟨rfl, rfl, hfalls⟩), fun _ => rfl⟩
      (fun s s' hs hw hle hr => ⟨hs.1.round hlo hle hw.lower hr, by
        cases hr
        · exact hs.2
        all_goals exact fun h => Bool.noConfusion h⟩)
  obtain ⟨rfl, rfl⟩ := h.unique hfinds
  have hdone : s.r = lo - 1 := by
    rcases hI.1 with hdone | ⟨hl, -, hrest⟩ | ⟨hl, -, hlast, -⟩
    · exact hdone
    · have hle := hrest.le
      omega
    · have hupper := hlast.upper
      omega
  have hr := hs.right
  have hleftGe := hs.left_ge
  rcases hresult with ⟨hnone, -⟩ | ⟨-, rfl, hseek⟩
  · have hstill := hI.2 hnone
    omega
  · have hup := hseek.le
    rcases hseek.ends with ⟨hfound, -⟩ | ⟨-, hend | hend⟩
    all_goals omega

/-- A search returns a left bound below its region only when it falls. -/
theorem falls_of_left_below {left right : Int} (hlo : 0 ≤ lo) (hle : lo ≤ hi)
    (hhi : hi < stabs.length) (h : Finds stabs lo hi type addr left right)
    (hleft : left = lo - 1) : Falls stabs type addr lo hi := by
  by_contra hfalls
  obtain ⟨s, a, b, hfinds, hstays, hs, -, hend⟩ :=
    @finds_of_inv stabs lo hi type addr hlo hle hhi (Stays stabs type addr lo)
      ⟨hle, .inr (.inl ⟨rfl, rfl, hfalls⟩)⟩
      (fun s s' hs hw hle hr => hs.round hlo hle hw.lower hr)
  obtain ⟨rfl, rfl⟩ := h.unique hfinds
  have hright := hstays.right
  have hr := hs.right
  have hleftGe := hs.left_ge
  rcases hend with ⟨-, ha, -⟩ | ⟨-, rfl, hseek⟩
  · omega
  · rcases hseek.ends with ⟨hfound, -⟩ | ⟨-, hend | hend⟩
    all_goals omega

end

/-- With the greatest address the search for the file can look at entry 2 twice,
the second time for address 0, and return entry 1, which is no file. -/
structure FileWraps (stabs : List Stab) (addr : UInt32) : Prop where
  greatest : addr + 1 = 0
  size : 3 ≤ stabs.length
  typed : (stabAt stabs 2).nType = nSo
  value : (stabAt stabs 2).nValue = addr
  gap : ∀ i : Int, 2 < i → i ≤ (stabs.length - 1) / 2 → (stabAt stabs i).nType ≠ nSo
  beyond : ¬ ((stabAt stabs ((stabs.length + 1) / 2)).nType = nSo ∧
    (stabAt stabs ((stabs.length + 1) / 2)).nValue = 0)

section

variable {stabs : List Stab} {addr : UInt32}

/-- The states of a search for the file when entries 0 and 1 are no files. -/
inductive Wrapping (stabs : List Stab) (addr : UInt32) (s : Search) : Prop
  | before (hleft : s.regionLeft = 0) (hl : s.l ≤ 2) (haddr : s.addr = addr)
      (hr : addr + 1 = 0 → s.r = stabs.length - 1)
  | twice (hleft : s.regionLeft = 2) (hl : s.l = 2) (haddr : s.addr = addr + 1)
      (htyped : (stabAt stabs 2).nType = nSo) (hvalue : (stabAt stabs 2).nValue = addr)
      (hr : 2 ≤ s.r ∨ (s.r = 1 ∧ addr + 1 < addr))
      (hgap : addr + 1 = 0 → ∀ i : Int, 2 < i → i ≤ (stabs.length - 1) / 2 →
        (stabAt stabs i).nType ≠ nSo)
      (hbeyond : addr + 1 = 0 → s.r = stabs.length - 1 ∨
        ¬ ((stabAt stabs ((stabs.length + 1) / 2)).nType = nSo ∧
          (stabAt stabs ((stabs.length + 1) / 2)).nValue = 0))
  | past (hleft : s.regionLeft = 0 ∨ 2 ≤ s.regionLeft) (hl : 3 ≤ s.l) (hr : 2 ≤ s.r)

theorem two_le_of_file {m : Int} (h₀ : (stabAt stabs 0).nType ≠ nSo)
    (h₁ : (stabAt stabs 1).nType ≠ nSo) (hm : 0 ≤ m) (htyped : (stabAt stabs m).nType = nSo) :
    2 ≤ m := by
  by_contra hlt
  obtain rfl | rfl : m = 0 ∨ m = 1 := by omega
  · exact h₀ htyped
  · exact h₁ htyped

theorem Wrapping.round {s s' : Search} (h₀ : (stabAt stabs 0).nType ≠ nSo)
    (h₁ : (stabAt stabs 1).nType ≠ nSo) (hs : Wrapping stabs addr s) (hl : 0 ≤ s.l)
    (hle : s.l ≤ s.r) (h : Search.Round stabs nSo s s') : Wrapping stabs addr s' := by
  have hmid := Search.mid_eq hl hle
  cases h with
  | absent hnone =>
    cases hs with
    | before hleft hl2 haddr hr =>
      by_cases hnext : s.mid + 1 ≤ 2
      · exact .before hleft hnext haddr hr
      · exact .past (.inl hleft) (by dsimp only; omega) (by dsimp only; omega)
    | twice hleft hl2 haddr htyped => exact absurd htyped (hnone 2 (by omega) (by omega))
    | past hleft hl3 hr => exact .past hleft (by dsimp only; omega) hr
  | @below m hm hv =>
    have hml := hm.lower
    have hmu := hm.upper
    have hm2 := two_le_of_file h₀ h₁ (by omega) hm.typed
    exact .past (.inr hm2) (by dsimp only; omega) (by dsimp only; omega)
  | @above m hm hv =>
    have hml := hm.lower
    have hmu := hm.upper
    have hm2 := two_le_of_file h₀ h₁ (by omega) hm.typed
    cases hs with
    | before hleft hl2 haddr hr =>
      refine .before hleft hl2 haddr ?_
      intro hwrap
      rw [haddr] at hv
      exact absurd hv (not_lt_of_succ_eq_zero hwrap _)
    | twice hleft hl2 haddr htyped hvalue hr hgap hbeyond =>
      refine .twice hleft hl2 haddr htyped hvalue ?_ hgap ?_
      · rcases Int.lt_or_eq_of_le hm2 with hlt | rfl
        · exact .inl (by dsimp only; omega)
        · rw [haddr, hvalue] at hv
          exact .inr ⟨rfl, hv⟩
      · intro hwrap
        right
        rcases hbeyond hwrap with hend | hbeyond
        · rintro ⟨hfile, hzero⟩
          have hmid' : s.mid = (stabs.length + 1) / 2 := by omega
          rcases Int.lt_or_eq_of_le hmu with hlt | heq
          · exact hm.last s.mid hlt (le_refl _) (hmid' ▸ hfile)
          · rw [heq, hmid', hzero] at hv
            exact absurd hv UInt32.not_lt_zero
        · exact hbeyond
    | past hleft hl3 hr => exact .past hleft hl3 (by dsimp only; omega)
  | @exact m hm hv =>
    have hml := hm.lower
    have hmu := hm.upper
    have hm2 := two_le_of_file h₀ h₁ (by omega) hm.typed
    cases hs with
    | before hleft hl2 haddr hr =>
      rcases Int.lt_or_eq_of_le hm2 with hlt | rfl
      · exact .past (.inr hm2) (by dsimp only; omega) (by dsimp only; omega)
      · refine .twice rfl rfl (by rw [haddr]) hm.typed (hv.trans haddr)
          (.inl (by dsimp only; omega)) ?_ (fun hwrap => .inl (hr hwrap))
        intro hwrap i hlt hi
        have hend := hr hwrap
        exact hm.last i hlt (by omega)
    | twice hleft hl2 haddr htyped hvalue hr hgap hbeyond =>
      rcases Int.lt_or_eq_of_le hm2 with hlt | rfl
      · exact .past (.inr hm2) (by dsimp only; omega) (by dsimp only; omega)
      · rw [hvalue, haddr] at hv
        exact absurd hv.symm (by simp)
    | past hleft hl3 hr => exact .past (.inr hm2) (by dsimp only; omega) hr

/-- When entries 0 and 1 are no files, the search for the file returns entry 1
only by wrapping. -/
theorem fileWraps_of_left_one {left right : Int} (h₀ : (stabAt stabs 0).nType ≠ nSo)
    (h₁ : (stabAt stabs 1).nType ≠ nSo) (hsize : stabs ≠ [])
    (h : Finds stabs 0 (stabs.length - 1) nSo addr left right) (hleft : left = 1) :
    FileWraps stabs addr ∧ right = 1 := by
  have hpos := List.length_pos_iff.mpr hsize
  obtain ⟨s, a, b, hfinds, hwrapping, hs, hend, hresult⟩ :=
    @finds_of_inv stabs 0 (stabs.length - 1) nSo addr (le_refl 0) (by omega) (by omega)
      (Wrapping stabs addr) (.before rfl (show (0 : Int) ≤ 2 by decide) rfl (fun _ => rfl))
      (fun s s' hs hw hle hr => hs.round h₀ h₁ hw.lower hle hr)
  obtain ⟨rfl, rfl⟩ := h.unique hfinds
  subst hleft
  have hr := hs.right
  rcases hresult with ⟨hnone, ha, -⟩ | ⟨-, hb, hseek⟩
  · have hunmatched := hs.unmatched hnone
    omega
  · have hleftEnd : 1 < s.regionLeft + 1 ∧ (s.regionLeft = 1 ∨ right = 1) := by
      rcases hseek.ends with ⟨-, hfile⟩ | ⟨hlt, hend | hend⟩
      · exact absurd (of_decide_eq_true hfile) h₁
      · exact ⟨hlt, .inl (by omega)⟩
      · exact ⟨hlt, .inr hend.symm⟩
    cases hwrapping with
    | before hleft => omega
    | twice hleft hl haddr htyped hvalue hr2 hgap hbeyond =>
      have hright : right = 1 := by omega
      have hhi := hs.left_hi
      have hlt : addr + 1 < addr := by
        rcases hr2 with hge | ⟨-, hlt⟩
        · omega
        · exact hlt
      have hwrap : addr + 1 = 0 := by
        by_contra hne
        exact not_succ_lt hne hlt
      refine ⟨⟨hwrap, by omega, htyped, hvalue, hgap hwrap, ?_⟩, hright⟩
      rcases hbeyond hwrap with hlast | hbeyond
      · omega
      · exact hbeyond
    | past hleft hl3 hr2 => omega

/-- The states of a search for the file that wraps. -/
inductive Wrapped (stabs : List Stab) (s : Search) : Prop
  | before (hl : s.l = 0 ∨ (s.l ≤ 2 ∧ stabs.length ≤ 4)) (haddr : s.addr + 1 = 0)
      (hr : s.r = stabs.length - 1)
  | twice (hleft : s.regionLeft = 2) (hl : s.l = 2) (haddr : s.addr = 0)
      (hmatched : s.anyMatches = true)
      (hr : s.r = stabs.length - 1 ∨ s.r = (stabs.length - 1) / 2 ∨ s.r = 1)

theorem FileWraps.value_ne_zero (hw : FileWraps stabs addr) : (stabAt stabs 2).nValue ≠ 0 := by
  rw [hw.value]
  rintro rfl
  exact absurd hw.greatest (by decide)

theorem FileWraps.round {s s' : Search} (hw : FileWraps stabs addr)
    (h₀ : (stabAt stabs 0).nType ≠ nSo) (h₁ : (stabAt stabs 1).nType ≠ nSo)
    (hs : Wrapped stabs s) (hl : 0 ≤ s.l) (hle : s.l ≤ s.r)
    (h : Search.Round stabs nSo s s') : Wrapped stabs s' := by
  have hsize := hw.size
  have hmid := Search.mid_eq hl hle
  cases hs with
  | before hl2 haddr hr =>
    have hlatest : ∀ m, Search.Latest stabs nSo s m → m = 2 := by
      intro m hm
      have hml := hm.lower
      have hmu := hm.upper
      have hm2 := two_le_of_file h₀ h₁ (by omega) hm.typed
      by_contra hne
      exact hw.gap m (by omega) (by omega) hm.typed
    have hsame : s.addr = addr := by
      have heq : s.addr + 1 = addr + 1 := haddr.trans hw.greatest.symm
      simpa using heq
    cases h with
    | absent hnone =>
      have hmid1 : s.mid ≤ 1 := by
        by_contra hgt
        exact hnone 2 (by omega) (by omega) hw.typed
      exact .before (.inr ⟨by dsimp only; omega, by omega⟩) haddr hr
    | below hm hv =>
      obtain rfl := hlatest _ hm
      rw [hw.value, hsame] at hv
      exact absurd hv (UInt32.lt_irrefl _)
    | above hm hv => exact absurd hv (not_lt_of_succ_eq_zero haddr _)
    | exact hm hv =>
      obtain rfl := hlatest _ hm
      exact .twice rfl rfl haddr rfl (.inl hr)
  | twice hleft hl2 haddr hmatched hr =>
    cases h with
    | absent hnone => exact absurd hw.typed (hnone 2 (by omega) (by omega))
    | below hm hv =>
      rw [haddr] at hv
      exact absurd hv UInt32.not_lt_zero
    | @above m hm hv =>
      have hml := hm.lower
      have hmu := hm.upper
      refine .twice hleft hl2 haddr rfl ?_
      by_cases hm2 : m = 2
      · exact .inr (.inr (by dsimp only; omega))
      · by_cases hgap : m ≤ (stabs.length - 1) / 2
        · exact absurd hm.typed (hw.gap m (by omega) hgap)
        · exact .inr (.inl (by dsimp only; omega))
    | @exact m hm hv =>
      have hml := hm.lower
      have hmu := hm.upper
      rw [haddr] at hv
      by_cases hm2 : m = 2
      · subst hm2
        exact absurd hv hw.value_ne_zero
      · by_cases hgap : m ≤ (stabs.length - 1) / 2
        · exact absurd hm.typed (hw.gap m (by omega) hgap)
        · obtain rfl : m = (stabs.length + 1) / 2 := by omega
          exact absurd ⟨hm.typed, hv⟩ hw.beyond

theorem FileWraps.finds {left right : Int} (hw : FileWraps stabs addr)
    (h₀ : (stabAt stabs 0).nType ≠ nSo) (h₁ : (stabAt stabs 1).nType ≠ nSo)
    (h : Finds stabs 0 (stabs.length - 1) nSo addr left right) : left = 1 ∧ right = 1 := by
  have hsize := hw.size
  obtain ⟨s, a, b, hfinds, hwrapped, hs, hend, hresult⟩ :=
    @finds_of_inv stabs 0 (stabs.length - 1) nSo addr (le_refl 0) (by omega) (by omega)
      (Wrapped stabs) (.before (.inl rfl) hw.greatest rfl)
      (fun s s' hs hwithin hle hr => hw.round h₀ h₁ hs hwithin.lower hle hr)
  obtain ⟨rfl, rfl⟩ := h.unique hfinds
  have hr := hs.right
  cases hwrapped with
  | before hl haddr hr2 => omega
  | twice hleft hl haddr hmatched hr2 =>
    rcases hresult with ⟨hnone, -⟩ | ⟨-, hright, hseek⟩
    · rw [hmatched] at hnone
      cases hnone
    · have hup := hseek.le
      rcases hseek.ends with ⟨hfound, -⟩ | ⟨-, hend | hend⟩
      all_goals omega

end

/-- The search for the file wraps, the search for the function then returns entry
0, and the search for the line -1. -/
structure Wraps (stabs : List Stab) (addr : UInt32) : Prop where
  file : FileWraps stabs addr
  function : (stabAt stabs 1).nType = nFun ∧ (stabAt stabs 1).nValue = addr
  line : (stabAt stabs 0).nType = nSline ∧
    addr - (stabAt stabs 0).nValue < (stabAt stabs 0).nValue

/-- The name and the NUL behind it lie in the string table. -/
def DebugName.Inside (stabstr : List UInt8) : DebugName → Prop
  | .unknown => True
  | .offset strx => strx < stabstr.length ∧ 0 ∈ stabstr.drop strx

theorem mem_drop_of_getLast {stabstr : List UInt8} (h : stabstr.getLast? = some 0) {i : Nat}
    (hi : i < stabstr.length) : 0 ∈ stabstr.drop i := by
  have hlast : (stabstr.drop i).getLast? = some 0 := by
    rw [List.getLast?_drop, if_neg (by omega), h]
  exact List.mem_of_getLast? hlast

theorem strfindColon_ends {stabstr : List UInt8} (h : stabstr.getLast? = some 0) {i : Nat}
    (hi : i < stabstr.length) : ∃ n, strfindColon stabstr i = .ok n := by
  induction hrest : stabstr.length - i generalizing i with
  | zero => omega
  | succ rest ih =>
    rw [strfindColon]
    split
    · next hnone =>
      have hge := List.getElem?_eq_none_iff.mp hnone
      omega
    · next c hsome =>
      by_cases hstop : c = 0 ∨ c = ':'.toUInt8
      · exact ⟨0, if_pos hstop⟩
      · rw [if_neg hstop]
        have hnext : i + 1 < stabstr.length := by
          by_contra hge
          have hlast : stabstr.getLast? = some c := by
            rw [List.getLast?_eq_getElem?, ← hsome]
            congr 1
            omega
          rw [h] at hlast
          exact hstop (.inl (Option.some.inj hlast).symm)
        obtain ⟨n, hn⟩ := ih hnext (by omega)
        rw [hn]
        exact ⟨n + 1, rfl⟩

theorem DebugName.ofStab_inside {stabstr : List UInt8} (h : stabstr.getLast? = some 0)
    (stab : Stab) : (DebugName.ofStab stabstr stab .unknown).Inside stabstr := by
  unfold ofStab
  split
  · next hlt => exact ⟨hlt, mem_drop_of_getLast h hlt⟩
  · exact True.intro

theorem DebugName.Inside.namelen {stabstr : List UInt8} (h : stabstr.getLast? = some 0)
    {name : DebugName} (hname : name.Inside stabstr) : ∃ n, name.namelen stabstr = .ok n := by
  cases name with
  | unknown => exact ⟨9, rfl⟩
  | offset strx => exact strfindColon_ends h hname.1

theorem countParams_ends {stabs : List Stab} {rfun lline : Int} (hlo : 0 ≤ lline)
    (hhi : rfun ≤ stabs.length) : ∃ n, countParams stabs rfun lline = .ok n := by
  induction hrest : (rfun - lline).toNat generalizing lline with
  | zero =>
    rw [countParams, if_neg (by omega)]
    exact ⟨0, rfl⟩
  | succ rest ih =>
    rw [countParams, if_pos (by omega), readStab_of_lt hlo (by omega)]
    dsimp only
    split
    · obtain ⟨n, hn⟩ : ∃ n, countParams stabs rfun (lline + 1) = .ok n :=
        ih (by omega) (by omega)
      rw [hn]
      exact ⟨n + 1, rfl⟩
    · exact ⟨0, rfl⟩

section

variable {t : StabData} {addr : UInt32}

/-- The loops of the searches below the first get at least this fuel. -/
def enoughRounds (t : StabData) : Nat := 2 * t.stabs.length + 1

theorem Finds.run {stabs : List Stab} {lo hi left right : Int} {type : UInt8}
    (h : Finds stabs lo hi type addr left right) (hlo : 0 ≤ lo) (hhi : hi < stabs.length)
    {n : Nat} (hn : 2 * stabs.length + 1 < n) :
    stabBinsearch n stabs lo hi type addr = .ok (left, right) :=
  h n (by omega)

theorem findFile_ends (hstr : t.stabstr.getLast? = some 0) {lfile lline : Int}
    (hlo : 0 ≤ lfile) (hhi : lline < t.stabs.length) :
    ∃ name, findFile t lfile lline = .ok name ∧ name.Inside t.stabstr := by
  obtain ⟨k, hseek, hk⟩ := seekBack_ends namesFile hlo hhi
  have hle := hk.le
  unfold findFile
  rw [hseek]
  change ∃ name, (if lfile ≤ k then _ else _) = _ ∧ _
  split
  · next hfound =>
    rw [readStab_of_lt (by omega) (by omega)]
    exact ⟨_, rfl, DebugName.ofStab_inside hstr _⟩
  · exact ⟨.unknown, rfl, True.intro⟩

/-- What the search for the function in the file leaves behind. -/
structure FunctionIn (t : StabData) (addr : UInt32) (lfile rfile : Int) (f : FoundFunction) :
    Prop where
  finds : Finds t.stabs lfile rfile nFun addr f.lfun f.rfun
  inside : f.fnName.Inside t.stabstr
  region : (f.lfun ≤ f.rfun ∧ f.lline = f.lfun ∧ f.rline = f.rfun ∧
      f.addr = addr - (stabAt t.stabs f.lfun).nValue) ∨
    (f.rfun < f.lfun ∧ f.lline = lfile ∧ f.rline = rfile)
  lower : lfile - 1 ≤ f.lfun
  upper : f.rfun ≤ rfile

theorem findFunction_ends (hstr : t.stabstr.getLast? = some 0) {lfile rfile : Int}
    (hlo : 1 ≤ lfile) (hle : lfile ≤ rfile) (hhi : rfile < t.stabs.length) :
    ∃ f, (∀ n, enoughRounds t < n → findFunction n t addr lfile rfile = .ok f) ∧
      FunctionIn t addr lfile rfile f := by
  obtain ⟨lfun, rfun, hfinds, hbounds⟩ := finds_bounds nFun addr (by omega) hle hhi
  have hrun : ∀ n, enoughRounds t < n → findFunction n t addr lfile rfile = (
      if lfun ≤ rfun then do
        let stab ← readStab t.stabs lfun
        return ⟨lfun, rfun, DebugName.ofStab t.stabstr stab .unknown, stab.nValue,
          addr - stab.nValue, lfun, rfun⟩
      else return ⟨lfun, rfun, .unknown, addr, addr, lfile, rfile⟩) := by
    intro n hn
    unfold findFunction
    rw [hfinds.run (by omega) hhi hn]
    rfl
  by_cases hfound : lfun ≤ rfun
  · refine ⟨⟨lfun, rfun, DebugName.ofStab t.stabstr (stabAt t.stabs lfun) .unknown,
      (stabAt t.stabs lfun).nValue, addr - (stabAt t.stabs lfun).nValue, lfun, rfun⟩,
      fun n hn => (hrun n hn).trans ?_, ?_⟩
    · rw [if_pos hfound, readStab_of_lt (by omega) (by omega)]
      rfl
    · exact ⟨hfinds, DebugName.ofStab_inside hstr _, .inl ⟨hfound, rfl, rfl, rfl⟩,
        by dsimp only; omega, by dsimp only; omega⟩
  · refine ⟨_, fun n hn => (hrun n hn).trans (if_neg hfound), ?_⟩
    exact ⟨hfinds, True.intro, .inr ⟨by dsimp only; omega, rfl, rfl⟩, by dsimp only; omega,
      by dsimp only; omega⟩

/-- The search for the line ends with a read of the entry it has found, if any. -/
theorem findLine_run {lline rline left right : Int} (hlo : 0 ≤ lline)
    (hhi : rline < t.stabs.length) (h : Finds t.stabs lline rline nSline addr left right)
    {n : Nat} (hn : enoughRounds t < n) :
    findLine n t addr lline rline = (
      if left ≤ right then do
        let stab ← readStab t.stabs left
        return (stab.nDesc.toNat, left)
      else return (-1, left)) := by
  unfold findLine
  rw [h.run hlo hhi hn]
  rfl

/-- `debuginfo_eip` reads only entries of the table, the names it returns lie in
the string table, and its loops end. -/
def ReadsInside (t : StabData) (addr : UInt32) : Prop :=
  ∃ rc info, (∀ n, enoughRounds t < n → debuginfoEip n t addr = .ok (rc, info)) ∧
    info.eipFile.Inside t.stabstr ∧ info.eipFnName.Inside t.stabstr

theorem debuginfoEip_of_file (hstr : t.stabstr.getLast? = some 0) (hsize : t.stabs ≠ [])
    {lfile rfile : Int} (h : Finds t.stabs 0 (t.stabs.length - 1) nSo addr lfile rfile)
    (hfile : lfile ≠ 0) {n : Nat} (hn : enoughRounds t < n) :
    debuginfoEip n t addr = (do
      let info ← debuginfoIn n t addr lfile rfile
      return (0, info)) := by
  have hpos := List.length_pos_iff.mpr hsize
  unfold debuginfoEip
  simp only [hstr, ne_eq, not_true_eq_false, if_false]
  rw [h.run (le_refl 0) (by omega) hn]
  change (if lfile = 0 then _ else _) = _
  rw [if_neg hfile]

/-- The parts of the search behind the file, when the line is not looked up
outside of the table. -/
theorem debuginfoIn_ends (hstr : t.stabstr.getLast? = some 0) {lfile rfile : Int}
    (hlo : 1 ≤ lfile) (hhi : rfile < t.stabs.length)
    {f : FoundFunction}
    (hrun : ∀ n, enoughRounds t < n → findFunction n t addr lfile rfile = .ok f)
    (hf : FunctionIn t addr lfile rfile f) {left right : Int}
    (hline : Finds t.stabs f.lline f.rline nSline f.addr left right) (hleft : 0 ≤ left)
    (hright : left < t.stabs.length) :
    ∃ info, (∀ n, enoughRounds t < n → debuginfoIn n t addr lfile rfile = .ok info) ∧
      info.eipFile.Inside t.stabstr ∧ info.eipFnName.Inside t.stabstr := by
  have hlower := hf.lower
  have hupper := hf.upper
  have hregion : 0 ≤ f.lline ∧ f.rline < t.stabs.length := by
    rcases hf.region with ⟨hfound, hl, hr, -⟩ | ⟨-, hl, hr⟩
    all_goals omega
  obtain ⟨namelen, hnamelen⟩ := hf.inside.namelen hstr
  obtain ⟨line, hfindLine⟩ : ∃ line, ∀ n, enoughRounds t < n →
      findLine n t f.addr f.lline f.rline = .ok (line, left) := by
    by_cases hfound : left ≤ right
    · refine ⟨(stabAt t.stabs left).nDesc.toNat, fun n hn => ?_⟩
      rw [findLine_run hregion.1 hregion.2 hline hn, if_pos hfound,
        readStab_of_lt hleft hright]
      rfl
    · refine ⟨-1, fun n hn => ?_⟩
      rw [findLine_run hregion.1 hregion.2 hline hn, if_neg hfound]
      rfl
  obtain ⟨file, hfindFile, hfile⟩ := findFile_ends hstr (show 0 ≤ lfile by omega) hright
  obtain ⟨narg, hnarg⟩ : ∃ narg, findNarg t f.lfun f.rfun = .ok narg := by
    unfold findNarg
    split
    · exact countParams_ends (by omega) (by omega)
    · exact ⟨0, rfl⟩
  refine ⟨⟨file, line, f.fnName, namelen, f.fnAddr, narg⟩, ?_, hfile, hf.inside⟩
  intro n hn
  unfold debuginfoIn
  rw [hrun n hn]
  change (do
    let namelen ← f.fnName.namelen t.stabstr
    _) = _
  rw [hnamelen]
  change (do
    let p ← findLine n t f.addr f.lline f.rline
    _) = _
  rw [hfindLine n hn]
  change (do
    let file ← findFile t lfile left
    _) = _
  rw [hfindFile]
  change (do
    let narg ← findNarg t f.lfun f.rfun
    _) = _
  rw [hnarg]
  rfl

/-- When neither way out of the table is open, nothing outside of it is read. -/
theorem readsInside_of_not (hsize : t.stabs ≠ []) (hstr : t.stabstr.getLast? = some 0)
    (hfalls : ¬ Falls t.stabs nSo addr 0 (t.stabs.length - 1))
    (hwraps : ¬ Wraps t.stabs addr) : ReadsInside t addr := by
  have hpos := List.length_pos_iff.mpr hsize
  obtain ⟨lfile, rfile, hfinds, hbounds⟩ := @finds_bounds t.stabs 0 (t.stabs.length - 1) nSo addr
    (le_refl 0) (by omega) (by omega)
  have hneg : lfile ≠ 0 - 1 :=
    fun h => hfalls (falls_of_left_below (le_refl 0) (by omega) (by omega) hfinds h)
  by_cases hzero : lfile = 0
  · refine ⟨-1, ⟨.unknown, 0, .unknown, 9, addr, 0⟩, ?_, True.intro, True.intro⟩
    intro n hn
    unfold debuginfoEip
    simp only [hstr, ne_eq, not_true_eq_false, if_false]
    rw [hfinds.run (le_refl 0) (by omega) hn]
    change (if lfile = 0 then _ else _) = _
    rw [if_pos hzero]
    rfl
  have hlo : 1 ≤ lfile := by omega
  have hle : lfile ≤ rfile := by omega
  have hhi : rfile < t.stabs.length := by omega
  obtain ⟨f, hrun, hf⟩ := @findFunction_ends t addr hstr lfile rfile hlo hle hhi
  have hlower := hf.lower
  have hupper := hf.upper
  have hregion : 0 ≤ f.lline ∧ f.lline ≤ f.rline ∧ f.rline < t.stabs.length := by
    rcases hf.region with ⟨hfound, hl, hr, -⟩ | ⟨-, hl, hr⟩
    all_goals omega
  obtain ⟨left, right, hline, hlineBounds⟩ :=
    finds_bounds nSline f.addr hregion.1 hregion.2.1 hregion.2.2
  have hleft : 0 ≤ left := by
    by_contra hlt
    have hbelow : left = f.lline - 1 := by omega
    obtain hl0 : f.lline = 0 := by omega
    have hlineFalls := falls_of_left_below hregion.1 hregion.2.1 hregion.2.2 hline hbelow
    rcases hf.region with ⟨hfound, hl, hr, haddr⟩ | ⟨-, hl, -⟩
    swap
    · omega
    have hlfile : lfile = 1 := by omega
    have hfunFalls := falls_of_left_below (by omega) hle hhi hf.finds (by omega)
    obtain ⟨-, hrfun⟩ := hfunFalls.finds (by omega) hhi hf.finds
    rw [hl0] at hlineFalls
    rw [hlfile] at hfunFalls
    have h₀ : (stabAt t.stabs 0).nType ≠ nSo := by
      rw [hlineFalls.typed_low]
      decide
    have h₁ : (stabAt t.stabs 1).nType ≠ nSo := by
      rw [hfunFalls.typed_low]
      decide
    obtain ⟨hwrap, hrfile⟩ := fileWraps_of_left_one h₀ h₁ hsize hfinds hlfile
    rw [hrfile] at hfunFalls
    obtain ⟨hfunType, hfunValue⟩ := falls_single_iff.mp hfunFalls
    have hfunMax : (stabAt t.stabs 1).nValue = addr := by
      rcases hfunValue with hgt | ⟨heq, -⟩
      · exact absurd hgt (not_lt_of_succ_eq_zero hwrap.greatest _)
      · exact heq
    have hrline : f.rline = 0 := by omega
    have hlfun : f.lfun = 0 := by omega
    rw [hrline, haddr, hlfun] at hlineFalls
    obtain ⟨hlineType, hlineValue⟩ := falls_single_iff.mp hlineFalls
    refine hwraps ⟨hwrap, ⟨hfunType, hfunMax⟩, hlineType, ?_⟩
    rcases hlineValue with hlt | ⟨heq, -⟩
    · exact hlt
    · exact absurd heq (ne_max_sub hwrap.greatest _)
  obtain ⟨info, hinfo, hfile, hname⟩ :=
    debuginfoIn_ends hstr hlo hhi hrun hf hline hleft (by omega)
  refine ⟨0, info, ?_, hfile, hname⟩
  intro n hn
  rw [debuginfoEip_of_file hstr hsize hfinds hzero hn, hinfo n hn]
  rfl

/-- A search that starts at -1 reads there. -/
theorem stabBinsearch_neg (stabs : List Stab) (type : UInt8) (addr : UInt32) {n : Nat}
    (hn : 0 < n) : stabBinsearch n stabs (-1) (-1) type addr = .error .outside := by
  obtain ⟨k, rfl⟩ : ∃ k, n = k + 1 := ⟨n - 1, by omega⟩
  have hseek : seekBack stabs (hasType type) (-1) (-1) = .error .outside := by
    rw [seekBack_eq, if_pos (le_refl _), readStab_of_neg (by decide)]
  have hstep : (Search.start (-1) (-1) addr).step stabs type = .error .outside := by
    unfold Search.step Search.stepBy
    change (do
      let m ← seekBack stabs (hasType type) (-1) (-1)
      _) = _
    rw [hseek]
    rfl
  have hle : (Search.start (-1) (-1) addr).l ≤ (Search.start (-1) (-1) addr).r := le_refl (-1)
  rw [stabBinsearch_eq]
  change (do
    let s ← Search.loop stabs type (k + 1) (.start (-1) (-1) addr)
    _) = _
  rw [Search.loop_succ, if_pos hle, hstep]
  rfl

theorem not_readsInside_of_falls (hsize : t.stabs ≠ []) (hstr : t.stabstr.getLast? = some 0)
    (hfalls : Falls t.stabs nSo addr 0 (t.stabs.length - 1)) : ¬ ReadsInside t addr := by
  rintro ⟨rc, info, hrun, -⟩
  have hpos := List.length_pos_iff.mpr hsize
  obtain ⟨lfile, rfile, hfinds, -⟩ := @finds_bounds t.stabs 0 (t.stabs.length - 1) nSo addr
    (le_refl 0) (by omega) (by omega)
  obtain ⟨rfl, rfl⟩ := hfalls.finds (le_refl 0) (by omega) hfinds
  have hn : enoughRounds t < enoughRounds t + 1 := Nat.lt_succ_self _
  have hread : debuginfoIn (enoughRounds t + 1) t addr (0 - 1) (0 - 1) = .error .outside := by
    unfold debuginfoIn findFunction
    rw [show (0 : Int) - 1 = -1 from rfl, stabBinsearch_neg _ _ _ (by omega)]
    rfl
  have hok := hrun _ hn
  rw [debuginfoEip_of_file hstr hsize hfinds (by decide) hn, hread] at hok
  cases hok

theorem not_readsInside_of_wraps (hstr : t.stabstr.getLast? = some 0)
    (hwraps : Wraps t.stabs addr) : ¬ ReadsInside t addr := by
  rintro ⟨rc, info, hrun, -⟩
  have hthree := hwraps.file.size
  have hsize : t.stabs ≠ [] := by
    rintro hnil
    rw [hnil] at hthree
    cases hthree
  have h₀ : (stabAt t.stabs 0).nType ≠ nSo := by
    rw [hwraps.line.1]
    decide
  have h₁ : (stabAt t.stabs 1).nType ≠ nSo := by
    rw [hwraps.function.1]
    decide
  obtain ⟨lfile, rfile, hfinds, -⟩ := @finds_bounds t.stabs 0 (t.stabs.length - 1) nSo addr
    (le_refl 0) (by omega) (by omega)
  obtain ⟨rfl, rfl⟩ := hwraps.file.finds h₀ h₁ hfinds
  obtain ⟨f, hrunf, hf⟩ := @findFunction_ends t addr hstr 1 1 (le_refl 1) (le_refl 1) (by omega)
  have hfunction : Falls t.stabs nFun addr 1 1 := falls_single_iff.mpr
    ⟨hwraps.function.1, .inr ⟨hwraps.function.2, hwraps.file.greatest⟩⟩
  obtain ⟨hlfun, hrfun⟩ := hfunction.finds (by decide) (by omega) hf.finds
  obtain ⟨hlline, hrline, haddr⟩ : f.lline = 0 ∧ f.rline = 0 ∧
      f.addr = addr - (stabAt t.stabs 0).nValue := by
    rcases hf.region with ⟨-, hl, hr, ha⟩ | ⟨hlt, -⟩
    · rw [hlfun] at hl ha
      exact ⟨hl, hr.trans hrfun, ha⟩
    · omega
  have hline : Falls t.stabs nSline f.addr 0 0 := by
    rw [haddr]
    exact falls_single_iff.mpr ⟨hwraps.line.1, .inl hwraps.line.2⟩
  obtain ⟨left, right, hlines, -⟩ := @finds_bounds t.stabs 0 0 nSline f.addr (le_refl 0)
    (le_refl 0) (by omega)
  obtain ⟨rfl, rfl⟩ := hline.finds (le_refl 0) (by omega) hlines
  obtain ⟨namelen, hnamelen⟩ := hf.inside.namelen hstr
  have hn : enoughRounds t < enoughRounds t + 1 := Nat.lt_succ_self _
  have hread : debuginfoIn (enoughRounds t + 1) t addr 1 1 = .error .outside := by
    unfold debuginfoIn
    rw [hrunf _ hn]
    change (do
      let namelen ← f.fnName.namelen t.stabstr
      _) = _
    rw [hnamelen]
    change (do
      let p ← findLine (enoughRounds t + 1) t f.addr f.lline f.rline
      _) = _
    rw [hlline, hrline, findLine_run (le_refl 0) (by omega) hlines hn, if_pos (le_refl _),
      readStab_of_neg (by decide)]
    rfl
  have hok := hrun _ hn
  rw [debuginfoEip_of_file hstr hsize hfinds (by decide) hn, hread] at hok
  cases hok

/-- `debuginfo_eip` stays in its tables exactly when the search for the file does
not fall below entry 0 and the three searches do not wrap. -/
theorem readsInside_iff (hsize : t.stabs ≠ []) (hstr : t.stabstr.getLast? = some 0) :
    ReadsInside t addr ↔
      ¬ Falls t.stabs nSo addr 0 (t.stabs.length - 1) ∧ ¬ Wraps t.stabs addr := by
  constructor
  · intro hreads
    constructor
    · exact fun hfalls => not_readsInside_of_falls hsize hstr hfalls hreads
    · exact fun hwraps => not_readsInside_of_wraps hstr hwraps hreads
  · rintro ⟨hfalls, hwraps⟩
    exact readsInside_of_not hsize hstr hfalls hwraps

end

/-- One file, above the address. -/
def fileAbove : StabData where
  stabs := [⟨0, nSo, 0, 0x00800020⟩]
  stabstr := [0]

theorem fileAbove_falls (addr : UInt32) (h : addr < 0x00800020) :
    Falls fileAbove.stabs nSo addr 0 (fileAbove.stabs.length - 1) := by
  change Falls fileAbove.stabs nSo addr 0 0
  exact falls_single_iff.mpr ⟨rfl, .inl h⟩

/-- A file with a function and a line, and the end of the file. -/
def fileWithLine : StabData where
  stabs := [⟨1, nSo, 0, 0x00800020⟩, ⟨3, nFun, 0, 0x00800020⟩, ⟨0, nSline, 7, 4⟩,
    ⟨0, nSo, 0, 0x00800040⟩]
  stabstr := [0, 'a'.toUInt8, 0, 'f'.toUInt8, ':'.toUInt8, 'F'.toUInt8, 0]

/-- The address of the line. -/
theorem readsInside_iff_fileWithLine : ReadsInside fileWithLine 0x00800024 := by
  apply (readsInside_iff (by decide) (by decide)).mpr
  constructor
  · intro hfalls
    rcases hfalls.low_value with hlt | ⟨heq, -⟩
    · exact absurd hlt (by decide)
    · exact absurd heq (by decide)
  · intro hwraps
    exact absurd hwraps.file.greatest (by decide)

theorem fileAbove_reads_outside : ¬ ReadsInside fileAbove 0x00800000 :=
  not_readsInside_of_falls (by decide) (by decide) (fileAbove_falls _ (by decide))

end Jos
