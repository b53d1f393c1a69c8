import Jos.StabSearch

/-!
What `stab_binsearch` finds. The search moves past an exact hit by increasing the
address that it looks for, so a neighbouring entry whose value is that address is
taken for a hit as well.
-/

namespace Jos

def valueAt (stabs : List Stab) (i : Int) : Nat := (stabAt stabs i).nValue.toNat

/-- The entry `i` lies in the region and has the type. -/
def Typed (stabs : List Stab) (lo hi : Int) (type : UInt8) (i : Int) : Prop :=
  lo ≤ i ∧ i ≤ hi ∧ (stabAt stabs i).nType = type

/-- The entries of the type in the region have strictly increasing values. -/
def Increasing (stabs : List Stab) (lo hi : Int) (type : UInt8) : Prop :=
  ∀ i j, Typed stabs lo hi type i → Typed stabs lo hi type j → i < j →
    valueAt stabs i < valueAt stabs j

/-- `left` is the entry that contains the address and `right` is just before the
next entry. -/
structure Brackets (stabs : List Stab) (lo hi : Int) (type : UInt8) (addr : UInt32)
    (left right : Int) : Prop where
  typed : Typed stabs lo hi type left
  le : valueAt stabs left ≤ addr.toNat
  largest : ∀ i, Typed stabs lo hi type i → valueAt stabs i ≤ addr.toNat → i ≤ left
  next : (∃ j, Typed stabs lo hi type j ∧ left < j ∧
      (∀ i, Typed stabs lo hi type i → left < i → j ≤ i) ∧ right = j - 1) ∨
    ((∀ i, Typed stabs lo hi type i → i ≤ left) ∧ right = hi)

/-- `k` is the last entry of the type at or before `c`. -/
def LastUpTo (stabs : List Stab) (type : UInt8) (c k : Int) : Prop :=
  k ≤ c ∧ (stabAt stabs k).nType = type ∧
    ∀ i, k < i → i ≤ c → (stabAt stabs i).nType ≠ type

/-- Halving the region `[l, r]` comes upon the entry `k'` before the entry `k` below
it. -/
inductive MeetsFirst (stabs : List Stab) (type : UInt8) (k k' : Int) : Int → Int → Prop
  | right {l r : Int} (h : (l + r) / 2 < k)
    (rest : MeetsFirst stabs type k k' ((l + r) / 2 + 1) r) : MeetsFirst stabs type k k' l r
  | left {l r f : Int} (hf : LastUpTo stabs type ((l + r) / 2) f) (h : k' < f)
    (rest : MeetsFirst stabs type k k' l (f - 1)) : MeetsFirst stabs type k k' l r
  | here {l r : Int} (h : LastUpTo stabs type ((l + r) / 2) k') : MeetsFirst stabs type k k' l r

/-- The exact hit, if there is one, is not left again for an entry above it. -/
def KeepsHit (stabs : List Stab) (lo hi : Int) (type : UInt8) (addr : UInt32) : Prop :=
  ∀ k, Typed stabs lo hi type k → valueAt stabs k = addr.toNat →
    addr.toNat ≠ 4294967295 ∧
      ∀ k', Typed stabs lo hi type k' → valueAt stabs k' = addr.toNat + 1 →
        MeetsFirst stabs type k k' lo hi ∨ (addr.toNat = 4294967294 ∧ k' = k + 1)

variable {stabs : List Stab} {lo hi : Int} {type : UInt8} {addr : UInt32} {i j k k' m : Int}
  {s s' : Search}

theorem Increasing.lt_iff (h : Increasing stabs lo hi type) (hi' : Typed stabs lo hi type i)
    (hj : Typed stabs lo hi type j) : valueAt stabs i < valueAt stabs j ↔ i < j := by
  constructor
  · intro hlt
    by_contra hnot
    rcases Int.lt_or_eq_of_le (Int.not_lt.mp hnot) with hji | rfl
    · have hlt' := h j i hj hi' hji
      omega
    · omega
  · exact h i j hi' hj

theorem valueAt_lt (stabs : List Stab) (i : Int) : valueAt stabs i < 4294967296 :=
  (stabAt stabs i).nValue.toNat_lt

theorem succ_addr_toNat (a : UInt32) (h : a.toNat ≠ 4294967295) :
    (a + 1).toNat = a.toNat + 1 := by
  have hlt := a.toNat_lt
  have hone : (1 : UInt32).toNat = 1 := rfl
  rw [UInt32.toNat_add, hone]
  omega

theorem succ_addr_wraps {a : UInt32} (h : a.toNat = 4294967295) : (a + 1).toNat = 0 := by
  have hone : (1 : UInt32).toNat = 1 := rfl
  rw [UInt32.toNat_add, hone, h]

namespace Search

/-- One round, with the entries of the type in the region in place of single
reads. -/
inductive TypedRound (stabs : List Stab) (lo hi : Int) (type : UInt8) (s : Search) : Search → Prop
  | absent (h : ∀ i, Typed stabs lo hi type i → s.l ≤ i → s.mid < i) :
    TypedRound stabs lo hi type s { s with l := s.mid + 1 }
  | below {m : Int} (hm : Typed stabs lo hi type m) (hlast : LastUpTo stabs type s.mid m)
    (hl : s.l ≤ m) (h : valueAt stabs m < s.addr.toNat) :
    TypedRound stabs lo hi type s { s with anyMatches := true, regionLeft := m, l := s.mid + 1 }
  | above {m : Int} (hm : Typed stabs lo hi type m) (hlast : LastUpTo stabs type s.mid m)
    (hl : s.l ≤ m) (h : s.addr.toNat < valueAt stabs m) :
    TypedRound stabs lo hi type s { s with anyMatches := true, regionRight := m - 1, r := m - 1 }
  | exact {m : Int} (hm : Typed stabs lo hi type m) (hlast : LastUpTo stabs type s.mid m)
    (hl : s.l ≤ m) (h : valueAt stabs m = s.addr.toNat) :
    TypedRound stabs lo hi type s
      { s with anyMatches := true, regionLeft := m, l := m, addr := s.addr + 1 }

theorem Round.typed (h : Round stabs type s s') (hlo : 0 ≤ lo) (hs : Within lo hi s)
    (hle : s.l ≤ s.r) : TypedRound stabs lo hi type s s' := by
  have hlower := hs.lower
  have hright := hs.right
  have hrightLe := hs.right_le
  have hmid := mid_eq (by omega) hle
  have hin {m : Int} (hm : Latest stabs type s m) :
      Typed stabs lo hi type m ∧ LastUpTo stabs type s.mid m := by
    have hml := hm.lower
    have hmu := hm.upper
    exact ⟨⟨by omega, by omega, hm.typed⟩, hmu, hm.typed, hm.last⟩
  cases h with
  | absent h =>
    refine .absent ?_
    intro i hi' hli
    by_contra hnot
    exact h i hli (Int.not_lt.mp hnot) hi'.2.2
  | below hm h =>
    exact .below (hin hm).1 (hin hm).2 hm.lower (UInt32.lt_iff_toNat_lt.mp h)
  | above hm h =>
    exact .above (hin hm).1 (hin hm).2 hm.lower (UInt32.lt_iff_toNat_lt.mp h)
  | exact hm h =>
    exact .exact (hin hm).1 (hin hm).2 hm.lower (congrArg UInt32.toNat h)

end Search

/-- An entry of the type at or before `c` is at or before the last one. -/
theorem LastUpTo.le (h : LastUpTo stabs type i m) (hk : Typed stabs lo hi type k) (hki : k ≤ i) :
    k ≤ m := by
  by_contra hnot
  exact h.2.2 k (Int.not_le.mp hnot) hki hk.2.2

theorem LastUpTo.unique (h : LastUpTo stabs type i m) (hk : LastUpTo stabs type i k) : m = k := by
  rcases lt_trichotomy m k with hlt | heq | hgt
  · exact absurd hk.2.1 (h.2.2 k hlt hk.1)
  · exact heq
  · exact absurd h.2.1 (hk.2.2 m hgt h.1)

/-- The region that is left, for the address `addr` of the call: what lies to its left is
at or before `*region_left`, what lies to its right is above the address. -/
structure Narrowed (stabs : List Stab) (lo hi : Int) (type : UInt8) (addr : UInt32)
    (s : Search) : Prop where
  passed : ∀ i, Typed stabs lo hi type i → i < s.l → i ≤ s.regionLeft
  found : (Typed stabs lo hi type s.regionLeft ∧ valueAt stabs s.regionLeft ≤ addr.toNat ∧
      s.anyMatches = true) ∨ ∀ i, Typed stabs lo hi type i → s.l ≤ i
  higher : ∀ i, Typed stabs lo hi type i → s.r < i → addr.toNat < valueAt stabs i
  edge : s.r = hi ∨ Typed stabs lo hi type (s.r + 1)

theorem start_narrowed (addr : UInt32) : Narrowed stabs lo hi type addr (.start lo hi addr) where
  passed := by
    intro i hi' hlt
    have hge := hi'.1
    change i < lo at hlt
    omega
  found := .inr fun i hi' => hi'.1
  higher := by
    intro i hi' hlt
    have hle := hi'.2.1
    change hi < i at hlt
    omega
  edge := .inl rfl

/-- A round keeps this when its comparisons come out as with the address of the call. -/
theorem Narrowed.round (h : Narrowed stabs lo hi type addr s)
    (hinc : Increasing stabs lo hi type) (hround : s.TypedRound stabs lo hi type s')
    (hbelow : ∀ m, Typed stabs lo hi type m → s.l ≤ m → m ≤ s.mid →
      valueAt stabs m ≤ s.addr.toNat → valueAt stabs m ≤ addr.toNat)
    (habove : addr.toNat ≤ s.addr.toNat) : Narrowed stabs lo hi type addr s' := by
  cases hround with
  | absent hnone =>
    refine ⟨?_, ?_, h.higher, h.edge⟩
    · intro i hi' hlt
      by_cases hli : s.l ≤ i
      · have hgt := hnone i hi' hli
        change i < s.mid + 1 at hlt
        omega
      · exact h.passed i hi' (Int.not_le.mp hli)
    · refine h.found.imp_right ?_
      intro hnew i hi'
      have hgt := hnone i hi' (hnew i hi')
      change s.mid + 1 ≤ i
      omega
  | below hm hlast hl hlt =>
    refine ⟨?_, .inl ⟨hm, hbelow _ hm hl hlast.1 (Nat.le_of_lt hlt), rfl⟩, h.higher, h.edge⟩
    intro i hi' hi''
    exact hlast.le hi' (Int.lt_add_one_iff.mp hi'')
  | @above m hm hlast hl hgt =>
    refine ⟨h.passed, ?_, ?_, .inr ?_⟩
    · exact h.found.imp_left fun hleft => ⟨hleft.1, hleft.2.1, rfl⟩
    · intro i hi' hlt
      change m - 1 < i at hlt
      rcases Int.lt_or_eq_of_le (Int.le_of_sub_one_lt hlt) with hmi | rfl
      · have hlt' := hinc m i hm hi' hmi
        omega
      · omega
    · change Typed stabs lo hi type (m - 1 + 1)
      rw [Int.sub_add_cancel]
      exact hm
  | exact hm hlast hl heq =>
    refine ⟨?_, .inl ⟨hm, hbelow _ hm hl hlast.1 (Nat.le_of_eq heq), rfl⟩, h.higher, h.edge⟩
    intro i _ hlt
    exact Int.le_of_lt hlt

/-- The final loop of `stab_binsearch` then gives the brackets. -/
theorem Narrowed.brackets {left right : Int} (h : Narrowed stabs lo hi type addr s)
    (hs : Search.Within lo hi s) (hend : s.r < s.l)
    (hsome : ∃ i, Typed stabs lo hi type i ∧ valueAt stabs i ≤ addr.toNat)
    (hresult : (s.anyMatches = false ∧ left = s.regionLeft ∧ right = s.regionLeft - 1) ∨
      (s.anyMatches = true ∧ right = s.regionRight ∧
        SeeksTo stabs (hasType type) (s.regionLeft + 1) right left)) :
    Brackets stabs lo hi type addr left right := by
  have hle : ∀ i, Typed stabs lo hi type i → valueAt stabs i ≤ addr.toNat → i ≤ s.r := by
    intro i hi' hval
    by_contra hnot
    have hgt := h.higher i hi' (Int.not_le.mp hnot)
    omega
  have hpassed : ∀ i, Typed stabs lo hi type i → i ≤ s.r → i ≤ s.regionLeft :=
    fun i hi' hir => h.passed i hi' (by omega)
  obtain ⟨i₀, hi₀, hval₀⟩ := hsome
  obtain ⟨htyped, hval, hmatch⟩ : Typed stabs lo hi type s.regionLeft ∧
      valueAt stabs s.regionLeft ≤ addr.toNat ∧ s.anyMatches = true := by
    rcases h.found with hfound | hnone
    · exact hfound
    · have hge := hnone i₀ hi₀
      have hle₀ := hle i₀ hi₀ hval₀
      omega
  have hleft := hle _ htyped hval
  rcases hresult with ⟨hno, -⟩ | ⟨-, rfl, hseek⟩
  · rw [hmatch] at hno
    cases hno
  have hright := hs.right
  have hrightLe := hs.right_le
  have hleftGe := hs.left_ge
  obtain rfl : left = s.regionLeft := by
    have hup := hseek.le
    rcases hseek.ends with ⟨hlow, hstop⟩ | ⟨hlow, hl | hl⟩
    · have hpast := hpassed left ⟨by omega, by omega, of_decide_eq_true hstop⟩ (by omega)
      omega
    · omega
    · omega
  refine ⟨htyped, hval, fun i hi' hi'' => hpassed i hi' (hle i hi' hi''), ?_⟩
  rcases h.edge with hedge | hedge
  · right
    refine ⟨fun i hi' => hpassed i hi' ?_, by omega⟩
    have hihi := hi'.2.1
    omega
  · left
    refine ⟨s.r + 1, hedge, by omega, ?_, by omega⟩
    intro i hi' hgt
    by_contra hnot
    have hpast := hpassed i hi' (by omega)
    omega

/-- Before an exact hit the search looks for the address of the call, and will come upon
the neighbour of the hit first; after it, it looks for the next address, which is not the
value of any entry in the region. -/
def Probing (stabs : List Stab) (lo hi : Int) (type : UInt8) (addr : UInt32) (s : Search) :
    Prop :=
  (s.addr = addr ∧ ∀ k k', Typed stabs lo hi type k → valueAt stabs k = addr.toNat →
      Typed stabs lo hi type k' → valueAt stabs k' = addr.toNat + 1 → k' ≤ s.r →
      MeetsFirst stabs type k k' s.l s.r) ∨
  (s.addr.toNat = addr.toNat + 1 ∧ ∀ i, Typed stabs lo hi type i → s.l ≤ i → i ≤ s.r →
      valueAt stabs i ≠ addr.toNat + 1)

theorem Probing.round (h : Probing stabs lo hi type addr s)
    (hn : Narrowed stabs lo hi type addr s) (hinc : Increasing stabs lo hi type)
    (hmax : ∀ k, Typed stabs lo hi type k → valueAt stabs k = addr.toNat →
      addr.toNat ≠ 4294967295)
    (hmid : s.mid = (s.l + s.r) / 2) (hle : s.l ≤ s.r)
    (hround : s.TypedRound stabs lo hi type s') : Probing stabs lo hi type addr s' := by
  have hmr : s.mid ≤ s.r := by omega
  have hlm : s.l ≤ s.mid := by omega
  rcases h with ⟨haddr, hmeets⟩ | ⟨haddr, hnone⟩
  · -- the neighbour of the hit is still in the region
    have hinside : ∀ k', Typed stabs lo hi type k' → valueAt stabs k' = addr.toNat + 1 →
        s.l ≤ k' := by
      intro k' hk' hval
      by_contra hnot
      have hpast := hn.passed k' hk' (Int.not_le.mp hnot)
      rcases hn.found with ⟨hleft, hleftVal, -⟩ | hall
      · rcases Int.lt_or_eq_of_le hpast with hlt | heq
        · have hlt' := hinc _ _ hk' hleft hlt
          omega
        · rw [← heq] at hleftVal
          omega
      · exact hnot (hall k' hk')
    cases hround with
    | absent habsent =>
      refine .inl ⟨haddr, ?_⟩
      intro k k' hk hkval hk' hkval' hkr
      have hin := hinside k' hk' hkval'
      cases hmeets k k' hk hkval hk' hkval' hkr with
      | right _ rest =>
        rw [← hmid] at rest
        exact rest
      | left hf hlt _ =>
        rw [← hmid] at hf
        have hgt := habsent k' hk' hin
        have hfle := hf.1
        omega
      | here hlast =>
        rw [← hmid] at hlast
        have hgt := habsent k' hk' hin
        have hkle := hlast.1
        omega
    | below hm hlast hl hlt =>
      rw [haddr] at hlt
      refine .inl ⟨haddr, ?_⟩
      intro k k' hk hkval hk' hkval' hkr
      cases hmeets k k' hk hkval hk' hkval' hkr with
      | right _ rest =>
        rw [← hmid] at rest
        exact rest
      | left hf hkf _ =>
        rw [← hmid] at hf
        rw [hf.unique hlast] at hkf
        have hlt' := hinc _ _ hk' hm hkf
        omega
      | here hhere =>
        rw [← hmid] at hhere
        rw [hhere.unique hlast] at hkval'
        omega
    | @above m hm hlast hl hgt =>
      rw [haddr] at hgt
      refine .inl ⟨haddr, ?_⟩
      intro k k' hk hkval hk' hkval' hkr
      change k' ≤ m - 1 at hkr
      have hmle := hlast.1
      cases hmeets k k' hk hkval hk' hkval' (by omega) with
      | right hlt _ =>
        have hlt' := hinc m k hm hk (by omega)
        omega
      | left hf _ rest =>
        rw [← hmid] at hf
        rw [hf.unique hlast] at rest
        exact rest
      | here hhere =>
        rw [← hmid] at hhere
        have heq := hhere.unique hlast
        omega
    | @exact m hm hlast hl heq =>
      rw [haddr] at heq
      refine .inr ⟨?_, ?_⟩
      · change (s.addr + 1).toNat = _
        rw [haddr]
        exact succ_addr_toNat addr (hmax m hm heq)
      · intro i hi' hmi hir hval
        have hmle := hlast.1
        cases hmeets m i hm heq hi' hval hir with
        | right hlt _ => omega
        | left hf hif _ =>
          rw [← hmid] at hf
          rw [hf.unique hlast] at hif
          change m ≤ i at hmi
          omega
        | here hhere =>
          rw [← hmid] at hhere
          rw [hhere.unique hlast] at hval
          omega
  · right
    cases hround with
    | absent _ =>
      refine ⟨haddr, fun i hi' hli hir => hnone i hi' ?_ hir⟩
      change s.mid + 1 ≤ i at hli
      omega
    | below _ _ _ _ =>
      refine ⟨haddr, fun i hi' hli hir => hnone i hi' ?_ hir⟩
      change s.mid + 1 ≤ i at hli
      omega
    | @above m _ hlast _ _ =>
      have hmle := hlast.1
      refine ⟨haddr, fun i hi' hli hir => hnone i hi' hli ?_⟩
      change i ≤ m - 1 at hir
      omega
    | @exact m hm hlast hl heq =>
      have hmle := hlast.1
      exact absurd (heq.trans haddr) (hnone m hm hl (by omega))

/-- The hit `k` and its neighbour `k + 1` have the two largest values of all: after the
neighbour has been hit as well the address is 0, and the region ends before it. -/
inductive LastTwo (hi : Int) (addr : UInt32) (k : Int) (s : Search) : Prop
  | before (haddr : s.addr = addr) (hl : s.l ≤ k) (hr : s.r = hi ∨ s.r = k)
  | hit (haddr : s.addr.toNat = addr.toNat + 1) (hleft : s.regionLeft = k)
    (hmatch : s.anyMatches = true) (hl : k ≤ s.l) (hr : (s.r = hi ∧ s.l ≤ k + 1) ∨ s.r = k)
  | wrapped (haddr : s.addr.toNat = 0) (hleft : s.regionLeft = k + 1)
    (hmatch : s.anyMatches = true) (hl : s.l = k + 1) (hr : s.r = hi)
  | after (hleft : s.regionLeft = k + 1) (hmatch : s.anyMatches = true) (hl : s.l = k + 1)
    (hr : s.r = k)

theorem LastTwo.round (h : LastTwo hi addr k s) (hinc : Increasing stabs lo hi type)
    (hk : Typed stabs lo hi type k) (hval : valueAt stabs k = addr.toNat)
    (hk' : Typed stabs lo hi type (k + 1)) (hval' : valueAt stabs (k + 1) = addr.toNat + 1)
    (haddr : addr.toNat = 4294967294) (hmid : s.mid = (s.l + s.r) / 2) (hle : s.l ≤ s.r)
    (hround : s.TypedRound stabs lo hi type s') : LastTwo hi addr k s' := by
  have hmr : s.mid ≤ s.r := by omega
  have hkhi := hk'.2.1
  have htop : ∀ m, Typed stabs lo hi type m → m ≤ k + 1 := by
    intro m hm
    by_contra hnot
    have hlt := hinc _ _ hk' hm (Int.not_le.mp hnot)
    have hbound := valueAt_lt stabs m
    omega
  have heq : ∀ m, Typed stabs lo hi type m → ∀ j, Typed stabs lo hi type j →
      valueAt stabs m = valueAt stabs j → m = j := by
    intro m hm j hj hmj
    have hmj' := hinc.lt_iff hm hj
    have hjm' := hinc.lt_iff hj hm
    omega
  cases h with
  | before ha hl hr =>
    cases hround with
    | absent habsent =>
      have hgt := habsent k hk hl
      refine .before ha ?_ hr
      change s.mid + 1 ≤ k
      omega
    | below hm hlast _ hlt =>
      rw [ha, ← hval] at hlt
      have hmk := (hinc.lt_iff hm hk).mp hlt
      refine .before ha ?_ hr
      change s.mid + 1 ≤ k
      by_contra hnot
      have hkm := hlast.le hk (by omega)
      omega
    | @above m hm hlast _ hgt =>
      rw [ha, ← hval] at hgt
      have hkm := (hinc.lt_iff hk hm).mp hgt
      have hmtop := htop m hm
      refine .before ha hl (.inr ?_)
      change m - 1 = k
      omega
    | @exact m hm _ _ hhit =>
      obtain rfl : m = k := heq m hm k hk (by rw [hhit, ha, hval])
      refine .hit ?_ rfl rfl (le_refl m) ?_
      · change (s.addr + 1).toNat = _
        rw [ha]
        exact succ_addr_toNat addr (by omega)
      · refine hr.imp_left fun hr => ⟨hr, ?_⟩
        change m ≤ m + 1
        omega
  | hit ha hleft hmatch hlk hr =>
    cases hround with
    | absent habsent =>
      refine .hit ha hleft hmatch ?_ ?_
      · change k ≤ s.mid + 1
        omega
      · refine hr.imp_left fun hr => ⟨hr.1, ?_⟩
        have hgt := habsent (k + 1) hk' hr.2
        change s.mid + 1 ≤ k + 1
        omega
    | @below m hm hlast hl hlt =>
      have hmk := (hinc.lt_iff hm hk').mp (by omega)
      obtain rfl : m = k := by omega
      refine .hit ha rfl rfl ?_ ?_
      · change m ≤ s.mid + 1
        omega
      · refine hr.imp_left fun hr => ⟨hr.1, ?_⟩
        change s.mid + 1 ≤ m + 1
        by_contra hnot
        have hkm := hlast.le hk' (by omega)
        omega
    | @above m hm hlast _ hgt =>
      have hkm := (hinc.lt_iff hk' hm).mp (by omega)
      have hmtop := htop m hm
      omega
    | @exact m hm hlast _ hhit =>
      obtain rfl : m = k + 1 := heq m hm (k + 1) hk' (by omega)
      have hmle := hlast.1
      refine .wrapped ?_ rfl rfl rfl ?_
      · exact succ_addr_wraps (by omega)
      · change s.r = hi
        omega
  | wrapped ha hleft hmatch hlk hr =>
    cases hround with
    | absent habsent =>
      have hgt := habsent (k + 1) hk' (by omega)
      omega
    | below _ _ _ hlt => omega
    | @above m hm hlast hl hgt =>
      have hmtop := htop m hm
      refine .after hleft rfl hlk ?_
      change m - 1 = k
      omega
    | @exact m hm hlast hl hhit =>
      have hmtop := htop m hm
      obtain rfl : m = k + 1 := by omega
      omega
  | after _ _ hl hr => omega

/-- Where the final loop stops when no entry in its range has the type, or when its range
is empty. -/
theorem SeeksTo.eq_left {left right : Int}
    (h : SeeksTo stabs (hasType type) (k + 1) right left) (hk : k ≤ right)
    (hnone : ∀ i, k < i → i ≤ right → (stabAt stabs i).nType ≠ type) : left = k := by
  have hup := h.le
  rcases h.ends with ⟨hlow, hstop⟩ | ⟨hlow, hl | hl⟩
  · exact absurd (of_decide_eq_true hstop) (hnone left (by omega) hup)
  · omega
  · omega

theorem LastTwo.brackets {left right : Int} (h : LastTwo hi addr k s)
    (hinc : Increasing stabs lo hi type) (hs : Search.Within lo hi s)
    (hk : Typed stabs lo hi type k) (hval : valueAt stabs k = addr.toNat)
    (hk' : Typed stabs lo hi type (k + 1)) (hval' : valueAt stabs (k + 1) = addr.toNat + 1)
    (hend : s.r < s.l)
    (hresult : (s.anyMatches = false ∧ left = s.regionLeft ∧ right = s.regionLeft - 1) ∨
      (s.anyMatches = true ∧ right = s.regionRight ∧
        SeeksTo stabs (hasType type) (s.regionLeft + 1) right left)) :
    Brackets stabs lo hi type addr left right := by
  have hkhi := hk'.2.1
  have hsr := hs.right
  obtain ⟨hmatch, hright, hseek⟩ : s.anyMatches = true ∧ right = s.regionRight ∧
      SeeksTo stabs (hasType type) (s.regionLeft + 1) right left := by
    refine hresult.resolve_left ?_
    rintro ⟨hno, -⟩
    cases h with
    | before _ hl hr => omega
    | hit _ _ hmatch _ _ => simp [hmatch] at hno
    | wrapped _ _ hmatch _ _ => simp [hmatch] at hno
    | after _ hmatch _ _ => simp [hmatch] at hno
  obtain ⟨hlk, hrk⟩ : left = k ∧ right = k := by
    cases h with
    | before _ hl hr => omega
    | hit _ hleft _ hl hr =>
      obtain rfl : right = k := by omega
      rw [hleft] at hseek
      exact ⟨hseek.eq_left (le_refl _) (fun i hlt hle => by omega), rfl⟩
    | wrapped _ _ _ hl hr => omega
    | after hleft _ _ hr =>
      obtain rfl : right = k := by omega
      have hup := hseek.le
      rcases hseek.ends with ⟨hlow, -⟩ | ⟨hlow, hl | hl⟩
      · omega
      · omega
      · exact ⟨hl, rfl⟩
  rw [hlk, hrk]
  refine ⟨hk, by omega, ?_, .inl ⟨k + 1, hk', by omega, fun i _ hlt => by omega, by omega⟩⟩
  intro i hi' hle
  by_contra hnot
  have hlt := hinc k i hk hi' (by omega)
  omega

/-- The hit `k` is met before its neighbour `k'`, and then left for it. -/
inductive Misled (stabs : List Stab) (type : UInt8) (addr : UInt32) (k k' : Int) (s : Search) :
    Prop
  | before (haddr : s.addr = addr) (hl : s.l ≤ k) (hr : k' ≤ s.r)
    (hmeets : ¬ MeetsFirst stabs type k k' s.l s.r)
  | hit (haddr : s.addr.toNat = addr.toNat + 1) (hl : s.l ≤ k') (hr : k' ≤ s.r)
  | after (hl : k' ≤ s.l) (hleft : k' ≤ s.regionLeft)
    (hright : k' ≤ s.regionRight ∧ (k' < s.l ∨ addr.toNat + 1 < s.addr.toNat) ∨
      k' - 1 ≤ s.regionRight ∧ addr.toNat = 4294967294)

theorem Misled.round (h : Misled stabs type addr k k' s) (hinc : Increasing stabs lo hi type)
    (hk : Typed stabs lo hi type k) (hval : valueAt stabs k = addr.toNat)
    (hk' : Typed stabs lo hi type k') (hval' : valueAt stabs k' = addr.toNat + 1)
    (hs : Search.Within lo hi s) (hmid : s.mid = (s.l + s.r) / 2) (hle : s.l ≤ s.r)
    (hround : s.TypedRound stabs lo hi type s') : Misled stabs type addr k k' s' := by
  have hmr : s.mid ≤ s.r := by omega
  have hkk : k < k' := (hinc.lt_iff hk hk').mp (by omega)
  have hright' := hs.right
  have heq : ∀ m, Typed stabs lo hi type m → ∀ j, Typed stabs lo hi type j →
      valueAt stabs m = valueAt stabs j → m = j := by
    intro m hm j hj hmj
    have hmj' := hinc.lt_iff hm hj
    have hjm' := hinc.lt_iff hj hm
    omega
  cases h with
  | before ha hl hr hmeets =>
    cases hround with
    | absent habsent =>
      have hgt := habsent k hk hl
      refine .before ha (by change s.mid + 1 ≤ k; omega) hr ?_
      intro hrest
      refine hmeets (.right (by omega) ?_)
      rw [← hmid]
      exact hrest
    | @below m hm hlast _ hlt =>
      rw [ha, ← hval] at hlt
      have hmk := (hinc.lt_iff hm hk).mp hlt
      have hkm : s.mid < k := by
        by_contra hnot
        have hle' := hlast.le hk (Int.not_lt.mp hnot)
        omega
      refine .before ha (by change s.mid + 1 ≤ k; omega) hr ?_
      intro hrest
      refine hmeets (.right (by omega) ?_)
      rw [← hmid]
      exact hrest
    | @above m hm hlast _ hgt =>
      rw [ha] at hgt
      have hlast' := hlast
      rw [hmid] at hlast'
      have hkm : k' ≤ m := by
        by_contra hnot
        have hlt := hinc m k' hm hk' (Int.not_le.mp hnot)
        omega
      have hne : k' ≠ m := by
        rintro rfl
        exact hmeets (.here hlast')
      refine .before ha hl (by change k' ≤ m - 1; omega) ?_
      intro hrest
      exact hmeets (.left hlast' (by omega) hrest)
    | @exact m hm _ _ hhit =>
      obtain rfl : m = k := heq m hm k hk (by rw [hhit, ha, hval])
      refine .hit ?_ (by change m ≤ k'; omega) hr
      change (s.addr + 1).toNat = _
      have hbound := valueAt_lt stabs k'
      rw [ha]
      exact succ_addr_toNat addr (by omega)
  | hit ha hl hr =>
    cases hround with
    | absent habsent =>
      have hgt := habsent k' hk' hl
      exact .hit ha (by change s.mid + 1 ≤ k'; omega) hr
    | @below m hm hlast _ hlt =>
      have hmk := (hinc.lt_iff hm hk').mp (by omega)
      refine .hit ha ?_ hr
      change s.mid + 1 ≤ k'
      by_contra hnot
      have hle' := hlast.le hk' (by omega)
      omega
    | @above m hm _ _ hgt =>
      have hkm := (hinc.lt_iff hk' hm).mp (by omega)
      exact .hit ha hl (by change k' ≤ m - 1; omega)
    | @exact m hm _ _ hhit =>
      obtain rfl : m = k' := heq m hm k' hk' (by omega)
      refine .after (le_refl m) (le_refl m) ?_
      by_cases hmax : addr.toNat = 4294967294
      · refine .inr ⟨?_, hmax⟩
        change m - 1 ≤ s.regionRight
        omega
      · refine .inl ⟨?_, .inr ?_⟩
        · change m ≤ s.regionRight
          omega
        · have hbound := valueAt_lt stabs m
          change addr.toNat + 1 < (s.addr + 1).toNat
          rw [succ_addr_toNat s.addr (by omega)]
          omega
  | after hl hleft hright =>
    cases hround with
    | absent _ =>
      refine .after ?_ hleft ?_
      · change k' ≤ s.mid + 1
        omega
      · refine hright.imp_left fun hright => ⟨hright.1, .inl ?_⟩
        change k' < s.mid + 1
        omega
    | below _ hlast hlm _ =>
      have hmle := hlast.1
      refine .after ?_ (by dsimp only; omega) ?_
      · change k' ≤ s.mid + 1
        omega
      · refine hright.imp_left fun hright => ⟨hright.1, .inl ?_⟩
        change k' < s.mid + 1
        omega
    | @above m hm _ hlm hgt =>
      refine .after hl hleft ?_
      rcases hright with ⟨-, hpast⟩ | ⟨-, hmax⟩
      · refine .inl ⟨?_, hpast⟩
        change k' ≤ m - 1
        have hne : m ≠ k' := by
          rintro rfl
          omega
        omega
      · refine .inr ⟨?_, hmax⟩
        change k' - 1 ≤ m - 1
        omega
    | @exact m hm _ hlm hhit =>
      refine .after (by change k' ≤ m; omega) (by change k' ≤ m; omega) ?_
      rcases hright with ⟨hr, hpast⟩ | hlast
      · refine .inl ⟨hr, .inl ?_⟩
        change k' < m
        have hne : m ≠ k' := by
          rintro rfl
          omega
        omega
      · exact .inr hlast

/-- An exact hit at the largest address: the address wraps to 0, and the hit ends up
outside the region. -/
inductive AddrWrapped (addr : UInt32) (k : Int) (s : Search) : Prop
  | before (haddr : s.addr = addr) (hl : s.l ≤ k) (hr : k ≤ s.r)
  | hit (haddr : s.addr.toNat = 0) (hl : s.l = k) (hleft : s.regionLeft = k) (hr : k ≤ s.r)
  | after (hleft : s.regionLeft = k) (hright : s.regionRight = k - 1) (hl : s.l = k)

theorem AddrWrapped.round (h : AddrWrapped addr k s) (hinc : Increasing stabs lo hi type)
    (hk : Typed stabs lo hi type k) (hval : valueAt stabs k = addr.toNat)
    (haddr : addr.toNat = 4294967295) (hs : Search.Within lo hi s)
    (hmid : s.mid = (s.l + s.r) / 2) (hle : s.l ≤ s.r)
    (hround : s.TypedRound stabs lo hi type s') : AddrWrapped addr k s' := by
  have htop : ∀ m, Typed stabs lo hi type m → m ≤ k := by
    intro m hm
    by_contra hnot
    have hlt := hinc _ _ hk hm (Int.not_le.mp hnot)
    have hbound := valueAt_lt stabs m
    omega
  cases h with
  | before ha hl hr =>
    cases hround with
    | absent habsent =>
      have hgt := habsent k hk hl
      exact .before ha (by change s.mid + 1 ≤ k; omega) hr
    | @below m hm hlast _ hlt =>
      rw [ha, ← hval] at hlt
      have hmk := (hinc.lt_iff hm hk).mp hlt
      refine .before ha ?_ hr
      change s.mid + 1 ≤ k
      by_contra hnot
      have hkm := hlast.le hk (by omega)
      omega
    | @above m hm _ _ hgt =>
      have hbound := valueAt_lt stabs m
      rw [ha] at hgt
      omega
    | @exact m hm _ _ hhit =>
      have hmk := hinc.lt_iff hm hk
      rw [ha] at hhit
      have hmtop := htop m hm
      obtain rfl : m = k := by omega
      refine .hit ?_ rfl rfl hr
      change (s.addr + 1).toNat = 0
      rw [ha]
      exact succ_addr_wraps haddr
  | hit ha hl hleft hr =>
    cases hround with
    | absent habsent =>
      have hgt := habsent k hk (by omega)
      omega
    | below _ _ _ hlt => omega
    | @above m hm _ hlm _ =>
      have hmtop := htop m hm
      refine .after hleft ?_ hl
      change m - 1 = k - 1
      omega
    | @exact m hm _ hlm hhit =>
      have hmtop := htop m hm
      obtain rfl : m = k := by omega
      omega
  | after _ hright hl =>
    have hsr := hs.right
    omega

theorem Brackets.hit {left right : Int} (h : Brackets stabs lo hi type addr left right)
    (hinc : Increasing stabs lo hi type) (hk : Typed stabs lo hi type k)
    (hval : valueAt stabs k = addr.toNat) : left = k := by
  have hle := h.largest k hk (by omega)
  by_contra hne
  have hlt := hinc k left hk h.typed (by omega)
  have hval' := h.le
  omega

theorem Brackets.left_le {left right : Int} (h : Brackets stabs lo hi type addr left right) :
    left ≤ right := by
  rcases h.next with ⟨j, -, hlt, -, rfl⟩ | ⟨-, rfl⟩
  · omega
  · exact h.typed.2.1

/-- In a region of the table the middle is the halved sum. -/
theorem Search.Within.mid_eq (hs : Search.Within lo hi s) (hlo : 0 ≤ lo) (hle : s.l ≤ s.r) :
    s.mid = (s.l + s.r) / 2 := by
  have hlower := hs.lower
  exact Search.mid_eq (by omega) hle

theorem finds_of_keepsHit (hlo : 0 ≤ lo) (hle : lo ≤ hi) (hhi : hi < stabs.length)
    (hinc : Increasing stabs lo hi type)
    (hsome : ∃ i, Typed stabs lo hi type i ∧ valueAt stabs i ≤ addr.toNat)
    (hkeeps : KeepsHit stabs lo hi type addr) :
    ∃ left right, Finds stabs lo hi type addr left right ∧
      Brackets stabs lo hi type addr left right := by
  by_cases hlast : addr.toNat = 4294967294 ∧ ∃ k, Typed stabs lo hi type k ∧
      valueAt stabs k = addr.toNat ∧ Typed stabs lo hi type (k + 1) ∧
      valueAt stabs (k + 1) = addr.toNat + 1
  · obtain ⟨hmax, k, hk, hval, hk', hval'⟩ := hlast
    obtain ⟨s, left, right, hfinds, hI, hs, hend, hresult⟩ :=
      @finds_of_inv stabs lo hi type addr hlo hle hhi (LastTwo hi addr k)
        (.before rfl hk.1 (.inl rfl))
        (fun s s' h hs hle hround =>
          h.round hinc hk hval hk' hval' hmax (hs.mid_eq hlo hle) hle (hround.typed hlo hs hle))
    exact ⟨left, right, hfinds, hI.brackets hinc hs hk hval hk' hval' hend hresult⟩
  · have hmeets : ∀ k k', Typed stabs lo hi type k → valueAt stabs k = addr.toNat →
        Typed stabs lo hi type k' → valueAt stabs k' = addr.toNat + 1 →
        MeetsFirst stabs type k k' lo hi := by
      intro k k' hk hval hk' hval'
      refine ((hkeeps k hk hval).2 k' hk' hval').resolve_right ?_
      rintro ⟨hmax, rfl⟩
      exact hlast ⟨hmax, k, hk, hval, hk', hval'⟩
    obtain ⟨s, left, right, hfinds, ⟨hI, -⟩, hs, hend, hresult⟩ :=
      @finds_of_inv stabs lo hi type addr hlo hle hhi
        (fun s => Narrowed stabs lo hi type addr s ∧ Probing stabs lo hi type addr s)
        ⟨start_narrowed addr, .inl ⟨rfl, fun k k' hk hval hk' hval' _ =>
          hmeets k k' hk hval hk' hval'⟩⟩
        (by
          rintro s s' ⟨hn, hp⟩ hs hle hround
          have hround' := hround.typed hlo hs hle
          have hmid := hs.mid_eq hlo hle
          refine ⟨hn.round hinc hround' ?_ ?_,
            hp.round hn hinc (fun k hk hval => (hkeeps k hk hval).1) hmid hle hround'⟩
          · intro m hm hlm hmm hval
            rcases hp with ⟨haddr, -⟩ | ⟨haddr, hnone⟩
            · rw [haddr] at hval
              exact hval
            · have hne := hnone m hm hlm (by omega)
              omega
          · rcases hp with ⟨haddr, -⟩ | ⟨haddr, -⟩
            · rw [haddr]
            · omega)
    exact ⟨left, right, hfinds, hI.brackets hs hend hsome hresult⟩

theorem finds_of_lostHit (hlo : 0 ≤ lo) (hle : lo ≤ hi) (hhi : hi < stabs.length)
    (hinc : Increasing stabs lo hi type) (hlost : ¬ KeepsHit stabs lo hi type addr) :
    ∃ left right, Finds stabs lo hi type addr left right ∧
      ¬ Brackets stabs lo hi type addr left right := by
  simp only [KeepsHit, not_forall, not_and, not_or] at hlost
  obtain ⟨k, hk, hval, hlost⟩ := hlost
  by_cases hmax : addr.toNat = 4294967295
  · obtain ⟨s, left, right, hfinds, hI, hs, hend, hresult⟩ :=
      @finds_of_inv stabs lo hi type addr hlo hle hhi (AddrWrapped addr k)
        (.before rfl hk.1 hk.2.1)
        (fun s s' h hs hle hround =>
          h.round hinc hk hval hmax hs (hs.mid_eq hlo hle) hle (hround.typed hlo hs hle))
    refine ⟨left, right, hfinds, ?_⟩
    intro hbr
    have hleft := hbr.hit hinc hk hval
    have hright := hbr.left_le
    have hsr := hs.right
    cases hI with
    | before _ hl hr => omega
    | hit _ hl _ hr => omega
    | after hl hr _ =>
      rcases hresult with ⟨-, -, hright'⟩ | ⟨-, hright', -⟩
      · omega
      · omega
  · obtain ⟨k', hk', hval', hmeets, hne⟩ := hlost hmax
    obtain ⟨s, left, right, hfinds, hI, hs, hend, hresult⟩ :=
      @finds_of_inv stabs lo hi type addr hlo hle hhi (Misled stabs type addr k k')
        (.before rfl hk.1 hk'.2.1 hmeets)
        (fun s s' h hs hle hround =>
          h.round hinc hk hval hk' hval' hs (hs.mid_eq hlo hle) hle (hround.typed hlo hs hle))
    refine ⟨left, right, hfinds, ?_⟩
    intro hbr
    have hleft := hbr.hit hinc hk hval
    have hkk := (hinc.lt_iff hk hk').mp (by omega)
    cases hI with
    | before _ hl hr _ => omega
    | hit _ hl hr => omega
    | after _ hl hr =>
      rcases hresult with ⟨-, hleft', -⟩ | ⟨-, hright', hseek⟩
      · omega
      · rcases hr with ⟨hr, -⟩ | ⟨hr, hlast⟩
        · rcases hseek.ends with ⟨hlow, -⟩ | ⟨-, hend' | hend'⟩ <;> omega
        · have hnext := hne hlast
          rcases hseek.ends with ⟨hlow, -⟩ | ⟨-, hend' | hend'⟩ <;> omega

/-- `stab_binsearch` ends, and it finds the entry that contains the address exactly when it
keeps the exact hit. -/
theorem brackets_iff_keepsHit (hlo : 0 ≤ lo) (hle : lo ≤ hi) (hhi : hi < stabs.length)
    (type : UInt8) (addr : UInt32) (hinc : Increasing stabs lo hi type)
    (hsome : ∃ i, Typed stabs lo hi type i ∧ valueAt stabs i ≤ addr.toNat) :
    ∃ left right, Finds stabs lo hi type addr left right ∧
      (Brackets stabs lo hi type addr left right ↔ KeepsHit stabs lo hi type addr) := by
  by_cases hkeeps : KeepsHit stabs lo hi type addr
  · obtain ⟨left, right, hfinds, hbr⟩ := finds_of_keepsHit hlo hle hhi hinc hsome hkeeps
    exact ⟨left, right, hfinds, iff_of_true hbr hkeeps⟩
  · obtain ⟨left, right, hfinds, hbr⟩ := finds_of_lostHit hlo hle hhi hinc hkeeps
    exact ⟨left, right, hfinds, iff_of_false hbr hkeeps⟩

/-- Two functions, the second one a byte behind the first. -/
def adjacentStabs : List Stab := [⟨0, nFun, 0, 0x10⟩, ⟨0, nFun, 0, 0x11⟩]

theorem adjacentStabs_increasing : Increasing adjacentStabs 0 1 nFun := by
  rintro i j ⟨hi0, hi1, -⟩ ⟨hj0, hj1, -⟩ hij
  obtain rfl : i = 0 := by omega
  obtain rfl : j = 1 := by omega
  decide

theorem brackets_iff_keepsHit_adjacent :
    ∃ left right, Finds adjacentStabs 0 1 nFun 0x11 left right ∧
      (Brackets adjacentStabs 0 1 nFun 0x11 left right ↔ KeepsHit adjacentStabs 0 1 nFun 0x11) :=
  brackets_iff_keepsHit (by decide) (by decide) (by decide) nFun 0x11 adjacentStabs_increasing
    ⟨0, ⟨by decide, by decide, rfl⟩, by decide⟩

/-- The address of the first function is not found to lie in it. -/
theorem adjacent_hit_lost :
    Increasing adjacentStabs 0 1 nFun ∧
      (∃ i, Typed adjacentStabs 0 1 nFun i ∧ valueAt adjacentStabs i ≤ (0x10 : UInt32).toNat) ∧
      ∃ left right, Finds adjacentStabs 0 1 nFun 0x10 left right ∧
        ¬ Brackets adjacentStabs 0 1 nFun 0x10 left right := by
  have h₀ : Typed adjacentStabs 0 1 nFun 0 := ⟨by decide, by decide, rfl⟩
  have h₁ : Typed adjacentStabs 0 1 nFun 1 := ⟨by decide, by decide, rfl⟩
  refine ⟨adjacentStabs_increasing, ⟨0, h₀, by decide⟩,
    finds_of_lostHit (by decide) (by decide) (by decide) adjacentStabs_increasing ?_⟩
  intro hkeeps
  have hmid : ((0 : Int) + 1) / 2 = 0 := by decide
  rcases (hkeeps 0 h₀ (by decide)).2 1 h₁ (by decide) with hmeets | ⟨hmax, -⟩
  · cases hmeets with
    | right h _ => omega
    | left hf h _ =>
      have hle := hf.1
      omega
    | here h =>
      have hle := h.1
      omega
  · exact absurd hmax (by decide)

end Jos
