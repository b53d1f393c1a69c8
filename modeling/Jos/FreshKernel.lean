import Jos.MemRuns
import Jos.Unmapped

/-!
A kernel that has set up its memory, for every number `k` of free pages with
which the memory ends below 256 MB: the image, `kern_pgdir` and the arrays lie
below frame 307, the page tables of the kernel follow in frames 307 to 373, and
the pages from 374 on are free, in order.
-/

namespace Jos

variable {k g : Nat} {d t : Fin 1024}

/-- The page table behind entry `d` of `kern_pgdir`. -/
def freshTable (d : Fin 1024) : Option Nat :=
  if 960 ≤ d.val then some (310 + (d.val - 960))
  else if d.val = 955 then some 307
  else if d.val = 956 then some 308
  else if d.val = 959 then some 309
  else none

def freshMem : Mem := fun f i =>
  if f = 280 then
    match freshTable i with
    | some g => page2pa g ||| tableFlags
    | none => if i = uvptIdx then page2pa 280 ||| pteP ||| pteU else 0
  else if 310 ≤ f ∧ f < 374 then page2pa ((f - 310) * 1024 + i.val) ||| pteW ||| pteP
  else 0

def freshLayout (k : Nat) : Layout where
  image := sampleImage
  npages := 374 + k
  resv := fun p => p < 307
  kd := 280
  kmem := freshMem

def freshKernel (k : Nat) : Machine :=
  { Machine.atEntry sampleImage (fun _ => 0) freshMem with
    npages := 374 + k
    kernPgdir := kva 280
    pages := fun p =>
      if p < 374 then { ppLink := none, ppRef := 1 }
      else { ppLink := if p + 1 < 374 + k then some (p + 1) else none, ppRef := 0 }
    pageFreeList := if 0 < k then some 374 else none
    cr3 := .pgdir (page2pa 280) }

@[simp] theorem freshLayout_kmem (k : Nat) : (freshLayout k).kmem = freshMem := rfl

theorem freshTable_bounds (h : freshTable d = some g) : 307 ≤ g ∧ g < 374 := by
  have hd := d.isLt
  unfold freshTable at h
  split_ifs at h <;> simp only [Option.some.injEq] at h <;> omega

theorem freshTable_kernel (h : freshTable d = some g) : userPdes ≤ d.val ∧ d ≠ uvptIdx := by
  have hne : d.val ≠ 957 → d ≠ uvptIdx := fun hd hu => hd (congrArg Fin.val hu)
  have hbase : userPdes = 955 := rfl
  unfold freshTable at h
  by_cases hd : 960 ≤ d.val ∨ d.val = 955 ∨ d.val = 956 ∨ d.val = 959
  · exact ⟨by omega, hne (by omega)⟩
  · rw [if_neg (by omega), if_neg (by omega), if_neg (by omega), if_neg (by omega)] at h
    cases h

theorem freshTable_inj {d' : Fin 1024} (h : freshTable d = some g) (h' : freshTable d' = some g) :
    d = d' := by
  have hd := d.isLt
  have hd' := d'.isLt
  apply Fin.ext
  unfold freshTable at h h'
  split_ifs at h h' <;> simp only [Option.some.injEq] at h h' <;> omega

theorem freshTable_surj (hlo : 307 ≤ g) (hhi : g < 374) : ∃ d, freshTable d = some g := by
  by_cases hwin : 310 ≤ g
  · refine ⟨⟨960 + (g - 310), by omega⟩, ?_⟩
    rw [freshTable, if_pos (by simp)]
    simp only [Option.some.injEq]
    omega
  · obtain rfl | rfl | rfl : g = 307 ∨ g = 308 ∨ g = 309 := by omega
    · exact ⟨955, rfl⟩
    · exact ⟨956, rfl⟩
    · exact ⟨959, rfl⟩

theorem freshMem_pde (h : freshTable d = some g) : freshMem 280 d = page2pa g ||| tableFlags := by
  simp [freshMem, h]

theorem freshLayout_kpt (k : Nat) (d : Fin 1024) : (freshLayout k).kpt d = freshTable d := by
  cases h : freshTable d with
  | some g =>
    have hg := freshTable_bounds h
    have hentry : entryFrame (page2pa g ||| tableFlags) = some g :=
      entryFrame_eq_some.mpr
        ⟨(present_entry (by omega)).mpr (by decide), frameOf_entry (by omega) (by decide)⟩
    rw [Layout.kpt, if_pos (freshTable_kernel h)]
    simp only [freshLayout, freshMem_pde h, hentry]
  | none =>
    rw [Layout.kpt]
    split
    · rename_i hd
      simp [freshLayout, freshMem, h, hd.2]
    · rfl

theorem freshLayout_isKpt (k : Nat) : (freshLayout k).IsKpt g ↔ 307 ≤ g ∧ g < 374 := by
  simp only [Layout.IsKpt, freshLayout_kpt]
  constructor
  · rintro ⟨d, hd⟩
    exact freshTable_bounds hd
  · rintro ⟨hlo, hhi⟩
    exact freshTable_surj hlo hhi

/-- The kernel page tables below the window are empty. -/
theorem freshMem_empty (h : freshTable d = some g) (hd : d.val < 960) : freshMem g t = 0 := by
  have hg : g < 310 := by
    unfold freshTable at h
    split_ifs at h <;> simp only [Option.some.injEq] at h <;> omega
  have hlo := (freshTable_bounds h).1
  rw [freshMem, if_neg (by omega), if_neg (by omega)]

theorem freshMem_window (hd : 960 ≤ d.val) :
    freshTable d = some (310 + (d.val - 960)) ∧
      freshMem (310 + (d.val - 960)) t =
        page2pa ((d.val - 960) * 1024 + t.val) ||| pteW ||| pteP := by
  have hlt := d.isLt
  refine ⟨if_pos hd, ?_⟩
  rw [freshMem, if_neg (by omega), if_pos (by omega)]
  simp

theorem freshLayout_good (hk : k ≤ 65162) : (freshLayout k).Good where
  npages_le := by
    change 374 + k ≤ 65536
    omega
  kd_lt := by
    change 280 < 374 + k
    omega
  kd_resv := by
    change 280 < 307
    decide
  kpt_managed := by
    intro d g hg
    rw [freshLayout_kpt] at hg
    have hbounds := freshTable_bounds hg
    constructor
    · change g < 374 + k
      omega
    · change ¬ g < 307
      omega
  kpt_unique := by
    intro d d' g hg hg'
    rw [freshLayout_kpt] at hg hg'
    exact freshTable_inj hg hg'
  user_empty := by
    intro d hd
    have hnone : freshTable d = none := by
      cases h : freshTable d with
      | none => rfl
      | some g => exact absurd (freshTable_kernel h).1 (by omega)
    have hne : d ≠ uvptIdx := by
      rintro rfl
      exact absurd hd (by decide)
    simp [freshLayout, freshMem, hnone, hne, present_zero]
  image_resv := by
    intro f _ hf
    have hend : sampleImage.kend.toNat = 4027677600 := rfl
    change _ < sampleImage.kend.toNat at hf
    change f < 307
    omega
  image_lt := by
    have hend : sampleImage.kend.toNat = 4027677600 := rfl
    change sampleImage.kend.toNat ≤ 4026531840 + (374 + k) * 4096
    omega
  window := by
    intro d t hd
    obtain ⟨htable, hmem⟩ := freshMem_window (t := t) hd
    refine ⟨_, (freshLayout_kpt k d).trans htable, ?_⟩
    rw [freshLayout_kmem, hmem]
  readonly := by
    intro d g t hg hd
    rw [freshLayout_kpt] at hg
    change ¬ allows (freshMem g t) true false
    rw [freshMem_empty hg (by omega)]
    decide
  kernel_only := by
    intro d g t hg hd
    rw [freshLayout_kpt] at hg
    change ¬ allows (freshMem g t) false true
    by_cases hwin : 960 ≤ d.val
    · have hlt := d.isLt
      have ht := t.isLt
      obtain ⟨htable, hmem⟩ := freshMem_window (t := t) hwin
      obtain rfl := Option.some.inj (htable.symm.trans hg)
      rw [hmem, UInt32.or_assoc, allows_entry (by omega)]
      decide
    · rw [freshMem_empty hg (by omega)]
      decide

theorem chain_range' (a k : Nat) :
    Chain (fun p => if p + 1 < a + k then some (p + 1) else none)
      (if 0 < k then some a else none) (List.range' a k) := by
  induction k generalizing a with
  | zero => rfl
  | succ k ih =>
    have hrest := ih (a + 1)
    have hsum : a + 1 + k = a + (k + 1) := by omega
    rw [hsum] at hrest
    have hlink : (if a + 1 < a + (k + 1) then some (a + 1) else none) =
        if 0 < k then some (a + 1) else none :=
      if_congr (by omega) rfl rfl
    rw [← hlink] at hrest
    rw [if_pos (by omega), List.range'_succ]
    exact ⟨rfl, hrest⟩

theorem freshKernel_pool (k : Nat) :
    PagePool (freshLayout k) (own freshMem (freshKernel k).envs) (freshKernel k)
      (List.range' 374 k) := by
  have hown : ∀ x, own freshMem (freshKernel k).envs x = none := own_of_no_env fun _ => rfl
  have hlink (p : Nat) (hp : 374 ≤ p) :
      ((freshKernel k).pages p).ppLink = if p + 1 < 374 + k then some (p + 1) else none := by
    simp only [freshKernel]
    rw [if_neg (by omega)]
  refine ⟨?_, ?_, ?_, ?_, ?_, ?_⟩
  · have hhead : (freshKernel k).pageFreeList = if 0 < k then some 374 else none := rfl
    rw [hhead]
    have hchain := chain_range' 374 k
    refine hchain.congr ?_
    intro p hp
    rw [List.mem_range'_1] at hp
    exact hlink p hp.1
  · intro p hp
    rw [List.mem_range'_1] at hp
    constructor
    · change p < 374 + k
      omega
    · change ¬ p < 307
      omega
  · intro p hp
    rw [List.mem_range'_1] at hp
    simp only [freshKernel]
    rw [if_neg (by omega)]
    rfl
  · intro p hp hfree
    rw [List.mem_range'_1] at hfree
    have hlt : p < 374 + k := hp.1
    simp only [freshKernel]
    rw [if_pos (by omega)]
  · intro p hp
    have hlt : p < 374 + k := hp.1
    have hge : ¬ p < 307 := hp.2
    rw [refs_eq_zero_iff.mpr (fun x => by simp [hown x]), Layout.base]
    simp only [freshLayout_isKpt, freshKernel]
    by_cases htable : p < 374
    · rw [if_pos htable, if_pos ⟨by omega, htable⟩]
      rfl
    · have hno : ¬ (307 ≤ p ∧ p < 374) := by omega
      rw [if_neg htable, if_neg hno]
      rfl
  · intro x p hx
    rw [hown x] at hx
    cases hx

theorem freshKernel_kinv (hk : k ≤ 65162) :
    KInv (freshLayout k) (List.range' 374 k) (freshKernel k) where
  good := freshLayout_good hk
  image := rfl
  npages := rfl
  kernPgdir := rfl
  cr3 := ⟨_, rfl⟩
  pool := freshKernel_pool k
  tables := by
    have hown : ∀ x, own (freshKernel k).mem (freshKernel k).envs x = none :=
      own_of_no_env fun _ => rfl
    have hdir (e : Fin nenv) : dirFrame (freshKernel k).envs e = none := hown (.dir e)
    refine ⟨?_, ?_, fun _ _ => rfl, ?_, ?_, ?_, ?_⟩
    · intro x y f _ _ hxf
      rw [hown x] at hxf
      cases hxf
    · intro x f _ hxf
      rw [hown x] at hxf
      cases hxf
    all_goals
      intro e f
      intros
      simp_all

/-- The kernel after `env_init`. -/
def readyKernel (k : Nat) : Machine := (freshKernel k).initEnvs 0

theorem readyKernel_kinv (hk : k ≤ 65162) :
    KInv (freshLayout k) (List.range' 374 k) (readyKernel k) :=
  (freshKernel_kinv hk).initEnvs fun _ => rfl

theorem readyKernel_inv (hk : k ≤ 65162) :
    ∃ efl, MemInv (freshLayout k) (List.range' 374 k) (fun _ => 0) efl (readyKernel k) := by
  obtain ⟨efl, htable⟩ := initEnvs_table (freshKernel k) rfl
  exact ⟨efl, readyKernel_kinv hk, htable⟩

/-- The kernel after it has created an environment in slot 0 and handed out the
page 375. -/
def oneEnv (k : Nat) : Machine := ((readyKernel k).newEnv ⟨0, by decide⟩ 374 280 0).takePage 375

theorem oneEnv_runs (ok : Machine → MemCall → Prop) (hok : ∀ s, ok s (.envAlloc 0))
    (hok' : ∀ s, ok s (.pageAlloc 0)) (hk : k + 2 ≤ 65162) :
    MemRuns (freshLayout (k + 2)) ok (readyKernel (k + 2)) (oneEnv (k + 2)) ∧
      KInv (freshLayout (k + 2)) (List.range' 376 k) (oneEnv (k + 2)) ∧
      dirFrame (oneEnv (k + 2)).envs 0 = some 374 ∧
      ∀ va, mappedAt (oneEnv (k + 2)) 0 va = none := by
  have hready := readyKernel_kinv hk
  rw [List.range'_succ] at hready
  have halloc := envAlloc_ok hready 0 (e := 0) rfl
  obtain ⟨hnew, hown⟩ := hready.newEnv (e := 0) 0 rfl
  rw [List.range'_succ] at hnew
  have htake := pageAlloc_some hnew.head_eq
  refine ⟨?_, hnew.takePage, ?_, ?_⟩
  · have hrun : MemRuns (freshLayout (k + 2)) ok (readyKernel (k + 2)) (readyKernel (k + 2)) :=
      .start
    have hrun := hrun.call (c := .envAlloc 0) trivial (hok _) ⟨_, halloc⟩
    exact hrun.call (c := .pageAlloc 0) trivial (hok' _) ⟨_, htake⟩
  · exact (congrFun hown (.dir 0)).trans (Function.update_self ..)
  · intro va
    have hslot := congrFun hown (.pte 0 (pdxIdx va) (ptxIdx va))
    rw [Function.update_of_ne (by simp)] at hslot
    refine hslot.trans ?_
    apply pteFrame_of_no_pde
    simp [pdeFrame, dirFrame, readyKernel, Machine.initEnvs, initRecord]

end Jos
