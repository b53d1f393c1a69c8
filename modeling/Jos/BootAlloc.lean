import Jos.Boot
import Jos.Lib.Bump

/-!
What `boot_alloc` hands out over any sequence of requests. Its comment says that it panics when
memory runs out; the code has no such check, so the results are right as long as the requests fit.
-/

namespace Jos

/-- One request after the other, with the results. -/
def bootAllocs : List UInt32 → Kern (List UInt32)
  | [] => pure []
  | n :: ns => do
    let r ← bootAlloc n
    let rs ← bootAllocs ns
    return r :: rs

/-- The block of `n` bytes at `r` is one that may be handed out after the blocks `earlier`, which
are given by size and address. The end address may be 2^32. -/
structure Handed (s : Machine) (earlier : List (UInt32 × UInt32)) (n r : UInt32) : Prop where
  aligned : r.toNat % 4096 = 0
  above : s.image.kend.toNat ≤ r.toNat
  room : r.toNat + n.toNat ≤ 2 ^ 32
  inside : r.toNat + n.toNat - kernbase.toNat ≤ s.npages * 4096
  apart : ∀ b ∈ earlier, 0 < b.1 →
    r.toNat + n.toNat ≤ b.2.toNat ∨ b.2.toNat + b.1.toNat ≤ r.toNat

/-- The first page behind the kernel and the blocks. -/
def FirstBehind (s : Machine) (earlier : List (UInt32 × UInt32)) (r : UInt32) : Prop :=
  IsLeast {a : Nat | a % 4096 = 0 ∧ s.image.kend.toNat ≤ a ∧
    ∀ b ∈ earlier, 0 < b.1 → b.2.toNat + b.1.toNat ≤ a} r.toNat

/-- The call leaves everything but the static pointer as it is, and no later request is answered
differently. -/
def ChangesNothing (s s' : Machine) : Prop :=
  s' = { s with nextfree := s'.nextfree } ∧
  ∀ ns, ((bootAllocs ns).run s').map Prod.fst = ((bootAllocs ns).run s).map Prod.fst

/-- What the request for `n` bytes may come to after the blocks `earlier`: a panic or a proper
block, or for 0 the first page behind all blocks. -/
def CallWell (s s₁ : Machine) (earlier : List (UInt32 × UInt32)) (n : UInt32) : Prop :=
  (0 < n → (∃ msg, (bootAlloc n).run s₁ = .error (.panic msg)) ∨
    ∃ r s₂, (bootAlloc n).run s₁ = .ok (r, s₂) ∧ Handed s earlier n r) ∧
  (n = 0 → ∃ r s₂, (bootAlloc n).run s₁ = .ok (r, s₂) ∧ FirstBehind s earlier r ∧
    ChangesNothing s₁ s₂)

/-- The same for each of the requests `ns`. -/
def AllocatesWell (s : Machine) (ns : List UInt32) : Prop :=
  ∀ pre n post, ns = pre ++ n :: post → ∀ rs s₁, (bootAllocs pre).run s = .ok (rs, s₁) →
    CallWell s s₁ (pre.zip rs) n

/-- The request fits when the next page is the `k`th of the address space. -/
def RequestFits (npages k : Nat) (n : UInt32) : Prop :=
  if n = 0 then 4096 * k < 2 ^ 32
  else 4096 * k + n.toNat ≤ 2 ^ 32 ∧ 4096 * k + n.toNat ≤ kernbase.toNat + npages * 4096

def RequestsFit (npages : Nat) : Nat → List UInt32 → Prop
  | _, [] => True
  | k, n :: ns =>
    RequestFits npages k n ∧ RequestsFit npages (k + Bump.units 4096 n.toNat) ns

section

variable {s s' : Machine} {n r : UInt32} {ns rs : List UInt32} {k : Nat}

/-- The static pointer is set up by the first call. -/
def Machine.bootNext (s : Machine) : UInt32 :=
  if s.nextfree = 0 then roundUp s.image.kend pgsize else s.nextfree

theorem bootAlloc_eq (s : Machine) (n : UInt32) :
    (bootAlloc n).run s = .ok (s.bootNext,
      { s with nextfree := if n = 0 then s.bootNext else s.bootNext + roundUp n pgsize }) := by
  unfold Machine.bootNext
  by_cases hnext : s.nextfree = 0 <;> by_cases hn : n = 0 <;> simp [bootAlloc, hnext, hn]

theorem roundUp_units (a : UInt32) :
    (roundUp a pgsize).toNat = 4096 * Bump.units 4096 a.toNat % 2 ^ 32 := by
  have ha := toNat_lt a
  rw [roundUp_pgsize_toNat]
  unfold Bump.units
  omega

theorem bootAllocs_cons (s : Machine) (n : UInt32) (ns : List UInt32) :
    (bootAllocs (n :: ns)).run s = (bootAllocs ns >>= fun rs => pure (s.bootNext :: rs)).run
      { s with nextfree := if n = 0 then s.bootNext else s.bootNext + roundUp n pgsize } :=
  Prog.bind_of_ok (bootAlloc_eq s n)

theorem bootAlloc_zero_changesNothing (s : Machine) :
    ChangesNothing s { s with nextfree := s.bootNext } := by
  refine ⟨rfl, fun ns => ?_⟩
  have hnext : ({ s with nextfree := s.bootNext } : Machine).bootNext = s.bootNext := by
    unfold Machine.bootNext
    by_cases hzero : s.nextfree = 0
    · simp only [hzero, if_true, ite_self]
    · simp only [hzero, if_false]
  cases ns with
  | nil => rfl
  | cons n ns => rw [bootAllocs_cons, bootAllocs_cons, hnext]

/-- The next page is the `k`th of the address space. Behind the last page the pointer is 0, as it
is before the first call. -/
def Placed (s : Machine) (k : Nat) : Prop :=
  (s.nextfree ≠ 0 ∧ s.nextfree.toNat = 4096 * k) ∨
  (s.nextfree = 0 ∧ (k = Bump.units 4096 s.image.kend.toNat ∨ 4096 * k = 2 ^ 32))

theorem units_kend (image : Image) :
    image.kend.toNat ≤ 4096 * Bump.units 4096 image.kend.toNat ∧
      4096 * Bump.units 4096 image.kend.toNat ≤ 2 ^ 32 := by
  have hlt := toNat_lt image.kend
  unfold Bump.units
  omega

theorem Placed.le (h : Placed s k) : 4096 * k ≤ 2 ^ 32 := by
  have hkend := units_kend s.image
  rcases h with ⟨-, hplace⟩ | ⟨-, rfl | hlast⟩
  · have hlt := toNat_lt s.nextfree
    omega
  · exact hkend.2
  · exact hlast.le

theorem Placed.bootNext (h : Placed s k) (hlt : 4096 * k < 2 ^ 32) :
    s.bootNext.toNat = 4096 * k := by
  unfold Machine.bootNext
  rcases h with ⟨hne, hplace⟩ | ⟨hzero, rfl | hlast⟩
  · rw [if_neg hne]
    exact hplace
  · rw [if_pos hzero, roundUp_units]
    exact Nat.mod_eq_of_lt hlt
  · omega

theorem Placed.step (h : Placed s k) (hpos : 0 < k) (hfit : RequestFits s.npages k n) :
    Placed { s with nextfree := if n = 0 then s.bootNext else s.bootNext + roundUp n pgsize }
      (k + Bump.units 4096 n.toNat) := by
  unfold RequestFits at hfit
  unfold Placed
  dsimp only
  split at hfit
  · next hn =>
    have hplace := h.bootNext hfit
    have hunits : Bump.units 4096 n.toNat = 0 := by
      rw [hn]
      exact Bump.units_zero (by decide)
    rw [if_pos hn, hunits]
    refine .inl ⟨?_, hplace⟩
    intro hzero
    rw [hzero] at hplace
    change 0 = 4096 * k at hplace
    omega
  · next hn =>
    have hpositive : 0 < n.toNat := Nat.pos_of_ne_zero (fun hzero => hn (UInt32.toNat_inj.mp hzero))
    have hplace := h.bootNext (by omega)
    have hend : 4096 * (k + Bump.units 4096 n.toNat) ≤ 2 ^ 32 := by
      unfold Bump.units
      omega
    have hsum : (s.bootNext + roundUp n pgsize).toNat =
        4096 * (k + Bump.units 4096 n.toNat) % 2 ^ 32 := by
      rw [UInt32.toNat_add, roundUp_units, hplace]
      omega
    rw [if_neg hn]
    rcases hend.lt_or_eq with hlt | hlast
    · rw [Nat.mod_eq_of_lt hlt] at hsum
      refine .inl ⟨?_, hsum⟩
      intro hzero
      rw [hzero] at hsum
      change 0 = _ at hsum
      omega
    · rw [hlast, Nat.mod_self] at hsum
      exact .inr ⟨UInt32.toNat_inj.mp hsum, .inr hlast⟩

/-- As long as the requests fit, the blocks stand one behind the other. -/
theorem Placed.run (h : Placed s k) (hpos : 0 < k) (hfit : RequestsFit s.npages k ns) :
    ∃ rs s', (bootAllocs ns).run s = .ok (rs, s') ∧ s' = { s with nextfree := s'.nextfree } ∧
      (ns.zip rs).map (fun b => (b.1.toNat, b.2.toNat)) =
        Bump.blocks 4096 k (ns.map UInt32.toNat) ∧
      Placed s' (Bump.next 4096 k (ns.map UInt32.toNat)) := by
  induction ns generalizing s k with
  | nil => exact ⟨[], s, rfl, rfl, rfl, h⟩
  | cons n ns ih =>
    obtain ⟨hfirst, hrest⟩ := hfit
    have hplace : s.bootNext.toNat = 4096 * k := by
      apply h.bootNext
      unfold RequestFits at hfirst
      split at hfirst
      · exact hfirst
      · next hn =>
        have hpositive : 0 < n.toNat :=
          Nat.pos_of_ne_zero (fun hzero => hn (UInt32.toNat_inj.mp hzero))
        omega
    obtain ⟨rs, s', hrun, honly, hblocks, hend⟩ :=
      ih (h.step hpos hfirst) (by omega) (by exact hrest)
    refine ⟨s.bootNext :: rs, s', ?_, honly, ?_, hend⟩
    · rw [bootAllocs_cons]
      exact Prog.bind_of_ok hrun
    · rw [List.zip_cons_cons, List.map_cons, hblocks, hplace]
      rfl

theorem requestsFit_append {npages k : Nat} {pre post : List UInt32} :
    RequestsFit npages k (pre ++ post) ↔ RequestsFit npages k pre ∧
      RequestsFit npages (Bump.next 4096 k (pre.map UInt32.toNat)) post := by
  induction pre generalizing k with
  | nil => exact iff_of_eq (true_and _).symm
  | cons n pre ih =>
    change _ ∧ RequestsFit _ _ (pre ++ post) ↔ (_ ∧ _) ∧ _
    rw [ih, and_assoc]
    rfl

theorem pos_of_ne_zero (h : n ≠ 0) : 0 < n.toNat :=
  Nat.pos_of_ne_zero fun hzero => h (UInt32.toNat_inj.mp hzero)

theorem RequestFits.lt {npages : Nat} (h : RequestFits npages k n) : 4096 * k < 2 ^ 32 := by
  unfold RequestFits at h
  split at h
  · exact h
  · next hn =>
    have hpos := pos_of_ne_zero hn
    omega

/-- The machine `s₁` after the requests `ns` with the results `rs`, all of which fitted. -/
structure AfterRequests (s s₁ : Machine) (ns rs : List UInt32) : Prop where
  only : s₁ = { s with nextfree := s₁.nextfree }
  blocks : (ns.zip rs).map (fun b => (b.1.toNat, b.2.toNat)) =
    Bump.blocks 4096 (Bump.units 4096 s.image.kend.toNat) (ns.map UInt32.toNat)
  placed : Placed s₁
    (Bump.next 4096 (Bump.units 4096 s.image.kend.toNat) (ns.map UInt32.toNat))

theorem AfterRequests.mem_blocks {s₁ : Machine} (h : AfterRequests s s₁ ns rs)
    {b : UInt32 × UInt32} (hb : b ∈ ns.zip rs) :
    (b.1.toNat, b.2.toNat) ∈
      Bump.blocks 4096 (Bump.units 4096 s.image.kend.toNat) (ns.map UInt32.toNat) := by
  rw [← h.blocks]
  exact List.mem_map_of_mem hb

theorem AfterRequests.exists_block {s₁ : Machine} (h : AfterRequests s s₁ ns rs) {c : Nat × Nat}
    (hc : c ∈ Bump.blocks 4096 (Bump.units 4096 s.image.kend.toNat) (ns.map UInt32.toNat)) :
    ∃ b ∈ ns.zip rs, (b.1.toNat, b.2.toNat) = c := by
  rw [← h.blocks] at hc
  exact List.mem_map.mp hc

section

variable {s₁ : Machine}

/-- The next page of the allocator, as a number of pages. -/
theorem AfterRequests.firstBehind (h : AfterRequests s s₁ ns rs)
    (hlt : 4096 * Bump.next 4096 (Bump.units 4096 s.image.kend.toNat) (ns.map UInt32.toNat) <
      2 ^ 32) : FirstBehind s (ns.zip rs) s₁.bootNext := by
  have hkend := units_kend s.image
  have hleast : IsLeast _
      (Bump.next 4096 (Bump.units 4096 s.image.kend.toNat) (ns.map UInt32.toNat)) :=
    Bump.next_isLeast (by decide)
  have hplace := h.placed.bootNext hlt
  unfold FirstBehind
  rw [hplace]
  constructor
  · refine ⟨Nat.mul_mod_right _ _, ?_, ?_⟩
    · have hbase := hleast.1.1
      omega
    · intro b hb hpos
      exact hleast.1.2 _ (h.mem_blocks hb) (UInt32.lt_iff_toNat_lt.mp hpos)
  · rintro a ⟨haligned, habove, hbehind⟩
    have ha : a = 4096 * (a / 4096) := by omega
    rw [ha]
    refine Nat.mul_le_mul_left _ (hleast.2 ⟨Bump.units_le (by decide) (by omega), ?_⟩)
    intro c hc hpos
    obtain ⟨b, hb, rfl⟩ := h.exists_block hc
    rw [← ha]
    exact hbehind b hb (UInt32.lt_iff_toNat_lt.mpr hpos)

theorem AfterRequests.callWell (h : AfterRequests s s₁ ns rs)
    (hfit : RequestFits s.npages
      (Bump.next 4096 (Bump.units 4096 s.image.kend.toNat) (ns.map UInt32.toNat)) n) :
    CallWell s s₁ (ns.zip rs) n := by
  have hkend := units_kend s.image
  have hplace := h.placed.bootNext hfit.lt
  have hnext := Bump.le_next 4096 (Bump.units 4096 s.image.kend.toNat) (ns.map UInt32.toNat)
  constructor
  · intro hpos
    have hne : n ≠ 0 := by
      rintro rfl
      exact absurd hpos (by decide)
    unfold RequestFits at hfit
    rw [if_neg hne] at hfit
    refine .inr ⟨_, _, bootAlloc_eq s₁ n, ?_⟩
    constructor
    · rw [hplace]
      exact Nat.mul_mod_right _ _
    · rw [hplace]
      omega
    · rw [hplace]
      exact hfit.1
    · rw [hplace]
      omega
    · intro b hb _
      have hbounds := (Bump.blocks_bounds (by decide) (h.mem_blocks hb)).2
      rw [hplace]
      exact .inr hbounds
  · rintro rfl
    exact ⟨_, _, bootAlloc_eq s₁ 0, h.firstBehind hfit.lt, bootAlloc_zero_changesNothing s₁⟩

/-- Where the last page was handed out the pointer is 0 again, and the allocator begins anew. -/
theorem AfterRequests.bootNext_wrapped (h : AfterRequests s s₁ ns rs)
    (hlast : 4096 * Bump.next 4096 (Bump.units 4096 s.image.kend.toNat) (ns.map UInt32.toNat) =
      2 ^ 32) :
    s₁.bootNext.toNat < s.image.kend.toNat ∨
      ∃ b ∈ ns.zip rs, 0 < b.1 ∧ b.2.toNat = s₁.bootNext.toNat := by
  have hkend := units_kend s.image
  have himage : s₁.image = s.image := by
    rw [h.only]
  have hzero : s₁.nextfree = 0 := by
    rcases h.placed with ⟨-, hplace⟩ | ⟨hzero, -⟩
    · have hlt := toNat_lt s₁.nextfree
      omega
    · exact hzero
  have hnext : s₁.bootNext.toNat = 4096 * Bump.units 4096 s.image.kend.toNat % 2 ^ 32 := by
    unfold Machine.bootNext
    rw [if_pos hzero, himage]
    exact roundUp_units _
  rcases hkend.2.lt_or_eq with hlt | hfull
  · rw [Nat.mod_eq_of_lt hlt] at hnext
    have hmoved : Bump.next 4096 (Bump.units 4096 s.image.kend.toNat) (ns.map UInt32.toNat) ≠
        Bump.units 4096 s.image.kend.toNat := by omega
    obtain ⟨c, hc, hpos, hplace⟩ := Bump.exists_first (by decide) hmoved
    obtain ⟨b, hb, rfl⟩ := h.exists_block hc
    exact .inr ⟨b, hb, UInt32.lt_iff_toNat_lt.mpr hpos, hplace.trans hnext.symm⟩
  · rw [hfull, Nat.mod_self] at hnext
    have hgt := s.image.kend_gt
    exact .inl (by omega)

theorem AfterRequests.fits (h : AfterRequests s s₁ ns rs) (hwell : CallWell s s₁ (ns.zip rs) n) :
    RequestFits s.npages
      (Bump.next 4096 (Bump.units 4096 s.image.kend.toNat) (ns.map UInt32.toNat)) n := by
  have hle := h.placed.le
  rcases hle.lt_or_eq with hlt | hlast
  · have hplace := h.placed.bootNext hlt
    unfold RequestFits
    split
    · exact hlt
    · next hn =>
      rcases hwell.1 (UInt32.lt_iff_toNat_lt.mpr (pos_of_ne_zero hn)) with
        ⟨msg, hpanic⟩ | ⟨r, s₂, hrun, hr⟩
      · rw [bootAlloc_eq] at hpanic
        cases hpanic
      · rw [bootAlloc_eq] at hrun
        obtain rfl := (Prod.mk.inj (Except.ok.inj hrun)).1
        have hroom := hr.room
        have hinside := hr.inside
        rw [hplace] at hroom hinside
        exact ⟨hroom, by omega⟩
  · exfalso
    have hwrapped := h.bootNext_wrapped hlast
    by_cases hn : n = 0
    · obtain ⟨r, s₂, hrun, hfirst, -⟩ := hwell.2 hn
      rw [bootAlloc_eq] at hrun
      obtain rfl := (Prod.mk.inj (Except.ok.inj hrun)).1
      rcases hwrapped with hbelow | ⟨b, hb, hpos, hplace⟩
      · have habove := hfirst.1.2.1
        omega
      · have hbehind := hfirst.1.2.2 b hb hpos
        have hsize := UInt32.lt_iff_toNat_lt.mp hpos
        change 0 < _ at hsize
        omega
    · have hsize := pos_of_ne_zero hn
      rcases hwell.1 (UInt32.lt_iff_toNat_lt.mpr hsize) with ⟨msg, hpanic⟩ | ⟨r, s₂, hrun, hr⟩
      · rw [bootAlloc_eq] at hpanic
        cases hpanic
      · rw [bootAlloc_eq] at hrun
        obtain rfl := (Prod.mk.inj (Except.ok.inj hrun)).1
        rcases hwrapped with hbelow | ⟨b, hb, hpos, hplace⟩
        · have habove := hr.above
          omega
        · have hsize' := UInt32.lt_iff_toNat_lt.mp hpos
          change 0 < _ at hsize'
          rcases hr.apart b hb hpos with hbefore | hbehind <;> omega

end

end

theorem afterRequests_run {s : Machine} {ns : List UInt32} (hstart : s.nextfree = 0)
    (hfit : RequestsFit s.npages (Bump.units 4096 s.image.kend.toNat) ns) :
    ∃ rs s₁, (bootAllocs ns).run s = .ok (rs, s₁) ∧ AfterRequests s s₁ ns rs := by
  have hpos : 0 < Bump.units 4096 s.image.kend.toNat := by
    have hkend := units_kend s.image
    have hgt := s.image.kend_gt
    omega
  have hplaced : Placed s (Bump.units 4096 s.image.kend.toNat) := .inr ⟨hstart, .inl rfl⟩
  obtain ⟨rs, s₁, hrun, honly, hblocks, hend⟩ := hplaced.run hpos hfit
  exact ⟨rs, s₁, hrun, honly, hblocks, hend⟩

/-- From the first call on, `boot_alloc` hands out disjoint pages inside physical memory exactly
when every request still fits into physical memory and into the address space: it never panics. -/
theorem boot_alloc_well_iff (s : Machine) (ns : List UInt32) (hstart : s.nextfree = 0) :
    AllocatesWell s ns ↔ RequestsFit s.npages (Bump.units 4096 s.image.kend.toNat) ns := by
  constructor
  · intro hwell
    have hgrow : ∀ post pre, ns = pre ++ post →
        RequestsFit s.npages (Bump.units 4096 s.image.kend.toNat) pre →
        RequestsFit s.npages (Bump.units 4096 s.image.kend.toNat) ns := by
      intro post
      induction post with
      | nil =>
        intro pre hns hpre
        rw [hns, List.append_nil]
        exact hpre
      | cons n post ih =>
        intro pre hns hpre
        obtain ⟨rs, s₁, hrun, hafter⟩ := afterRequests_run hstart hpre
        refine ih (pre ++ [n]) (by simp [hns]) ?_
        rw [requestsFit_append]
        exact ⟨hpre, hafter.fits (hwell pre n post hns rs s₁ hrun), trivial⟩
    exact hgrow ns [] rfl trivial
  · intro hfit pre n post hns rs s₁ hrun
    rw [hns, requestsFit_append] at hfit
    obtain ⟨rs', s₁', hrun', hafter⟩ := afterRequests_run hstart hfit.1
    rw [hrun] at hrun'
    obtain ⟨rfl, rfl⟩ := Prod.mk.inj (Except.ok.inj hrun')
    exact hafter.callWell hfit.2.1

/-- A kernel that ends at 0xF0118000, on a machine with 4 MB of memory. -/
def smallMachine : Machine :=
  { Machine.atEntry ⟨0xF0118000, 0xF0110000, by decide, by decide, by decide, by decide⟩
      (fun _ => 0) (fun _ _ => 0) with npages := 1024 }

/-- A page directory, 0, and an array of 8 KB. -/
theorem boot_alloc_well_iff_small : AllocatesWell smallMachine [4096, 0, 8192] := by
  refine (boot_alloc_well_iff smallMachine [4096, 0, 8192] rfl).mpr ?_
  unfold RequestsFit RequestFits
  refine ⟨by decide, ?_⟩
  unfold RequestsFit RequestFits
  refine ⟨by decide, ?_⟩
  unfold RequestsFit RequestFits
  exact ⟨by decide, trivial⟩

/-- A request for 4 MB ends behind the memory, and there is no panic. -/
theorem boot_alloc_exceeds_memory : ¬ AllocatesWell smallMachine [0x400000] := by
  intro hwell
  have hstart : AfterRequests smallMachine smallMachine [] [] :=
    ⟨rfl, rfl, .inr ⟨rfl, .inl rfl⟩⟩
  have hfit := hstart.fits (hwell [] 0x400000 [] rfl [] smallMachine rfl)
  revert hfit
  unfold RequestFits
  decide

end Jos
