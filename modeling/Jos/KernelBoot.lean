import Jos.Isolation
import Jos.MemInit

/-!
The kernel that `mem_init` and `env_init` leave: its tables are a good layout, every page but those
of the kernel is free, and no environment exists yet.
-/

namespace Jos

variable {image : Image} {nvram : Nat → UInt8} {mem : Mem} {l fl fl' : List Nat}
  {s t u : Machine} {m : Vpn} {g p : Nat} {d : Fin 1024} {v : UInt32}

/-- The layout of the kernel in the state `u`: the pages that `page_init` did not free are its
own. -/
def bootLayout (image : Image) (nvram : Nat → UInt8) (u : Machine) : Layout where
  image := image
  npages := (detected nvram).1
  resv := fun p => p ∉ initList (detected nvram).1 (detected nvram).2
    (image.firstFree (detected nvram).1)
  kd := image.kdFrame
  kmem := u.mem

theorem newPte_allows {perm : UInt32} (hp : p < 1048576) (write user : Bool) :
    allows (newPte p perm) write user ↔ allows (perm ||| pteP) write user := by
  rw [newPte_eq, allows_entry hp]

theorem PagesOnly.loadPgdir (h : PagesOnly s t) (pa : UInt32) :
    PagesOnly (s.loadPgdir pa) (t.loadPgdir pa) := by
  unfold PagesOnly Machine.loadPgdir
  rw [h.eq]

/-- The page with the indices `d` and `i`. -/
theorem vpn_index (d i : Fin 1024) : vpn (pageVa (d.val * 1024 + i.val)) = (d, i) := by
  have hd := d.isLt
  have hi := i.isLt
  have hva : (pageVa (d.val * 1024 + i.val)).toNat = (d.val * 1024 + i.val) * 4096 :=
    pageVa_toNat (by omega)
  simp only [vpn, Prod.mk.injEq, Fin.ext_iff, pdxIdx, ptxIdx, pdx_toNat, ptx_toNat, hva]
  omega

namespace Done

section Facts

variable (h : Done image nvram mem l s t fl fl' u)

include h

theorem mem_l : p ∈ l ↔ p ∈ initList (detected nvram).1 (detected nvram).2
    (image.firstFree (detected nvram).1) := h.testing.perm.mem_iff

theorem lt_npages (hp : p ∈ l) : p < (detected nvram).1 := by
  rw [← h.testing.npages]
  exact h.entry.lt p hp

theorem npages_le : (detected nvram).1 ≤ 65536 := by
  rw [← h.testing.npages]
  exact h.entry.npages

/-- The pages that can be handed out are those of the first free list. -/
theorem managed_iff : (bootLayout image nvram u).Managed p ↔ p ∈ l := by
  constructor
  · rintro ⟨-, hp⟩
    exact h.mem_l.mpr (not_not.mp hp)
  · intro hp
    exact ⟨h.lt_npages hp, not_not.mpr (h.mem_l.mp hp)⟩

theorem mem_kd : u.mem image.kdFrame = t.mem image.kdFrame :=
  h.shuffled.frames _ h.mapped.pgdir.dirUsed

theorem mem_table (hd : d ≠ uvptIdx) (hg : entryFrame (t.mem image.kdFrame d) = some g) :
    u.mem g = t.mem g :=
  h.shuffled.frames g (h.mapped.pgdir.table d g hd hg).2.2

/-- The tests that follow leave the translations alone. -/
theorem pteAt_eq (hm : m.1 ≠ uvptIdx) :
    pteAt u.mem image.kdFrame m = pteAt t.mem image.kdFrame m :=
  pteAt_congr h.mem_kd fun _ hg => h.mem_table hm hg

/-- What is mapped outside of the window at `UVPT` lies in one of the four regions. -/
theorem region_of_pteAt (hm : m.1 ≠ uvptIdx) (hv : pteAt u.mem image.kdFrame m = some v) :
    ∃ r ∈ kernelRegions s.image s.npages (image.kdFrame + 1)
        (image.kdFrame + 1 + pagesFrames (detected nvram).1),
      ∃ i < r.count, m = vpn (pageVa (r.page + i)) ∧ v = newPte (r.frame + i) r.perm := by
  rw [h.pteAt_eq hm] at hv
  by_contra hno
  have hout : ∀ r ∈ kernelRegions s.image s.npages (image.kdFrame + 1)
      (image.kdFrame + 1 + pagesFrames (detected nvram).1), ¬ r.Has m := by
    rintro r hr ⟨i, hi, rfl⟩
    rw [h.mapped.inside r hr i hi] at hv
    exact hno ⟨r, hr, i, hi, rfl, (Option.some.inj hv).symm⟩
  rw [h.mapped.outside m hm hout, h.entry.pteAt_none hm] at hv
  cases hv

/-- A page table of `kern_pgdir` is one of the pages that `boot_map_region` took. -/
theorem table_taken (hd : d ≠ uvptIdx) (hg : entryFrame (u.mem image.kdFrame d) = some g) :
    g ∈ l ∧ g ∉ fl ∧ userPdes ≤ d.val := by
  rw [h.mem_kd] at hg
  have hgfl := (h.mapped.pgdir.table d g hd hg).2.2
  rcases h.mapped.grown.dir d with hsame | ⟨-, ⟨r, hr, hmem⟩, g', hg', hnew⟩
  · rw [hsame, h.entry.empty d hd, entryFrame_zero] at hg
    cases hg
  · have hlt := h.lt_npages hg'
    have hle := h.npages_le
    rw [hnew, entryFrame_pde_entry (by omega)] at hg
    obtain rfl := Option.some.inj hg
    have hidx := h.entry.mem_tables hr hmem
    have hbase : userPdes = 955 := rfl
    exact ⟨hg', hgfl, by omega⟩

theorem kpt_eq_some : (bootLayout image nvram u).kpt d = some g ↔
    d ≠ uvptIdx ∧ entryFrame (u.mem image.kdFrame d) = some g := by
  unfold Layout.kpt
  constructor
  · intro hg
    split at hg
    · rename_i hd
      exact ⟨hd.2, hg⟩
    · cases hg
  · rintro ⟨hd, hg⟩
    rw [if_pos ⟨(h.table_taken hd hg).2.2, hd⟩]
    exact hg

/-- The pages that are no longer free are the page tables of the kernel. -/
theorem isKpt_iff : (bootLayout image nvram u).IsKpt g ↔ g ∈ l ∧ g ∉ fl := by
  constructor
  · rintro ⟨d, hd⟩
    obtain ⟨hne, hg⟩ := h.kpt_eq_some.mp hd
    obtain ⟨hl, hfl, -⟩ := h.table_taken hne hg
    exact ⟨hl, hfl⟩
  · rintro ⟨hl, hfl⟩
    obtain ⟨new, hnew, -⟩ := h.mapped.tables
    rw [hnew.taken, List.mem_append] at hl
    obtain ⟨d, hnone, hsome⟩ := hnew.table g (hl.resolve_right hfl)
    refine ⟨d, h.kpt_eq_some.mpr ⟨?_, h.mem_kd ▸ hsome⟩⟩
    rintro rfl
    have hlt := h.entry.dirWindow.lt
    rw [h.entry.self, entryFrame_eq_none, UInt32.or_assoc, present_entry (by omega)] at hnone
    exact hnone (by decide)

/-- An entry in a page table of the kernel. -/
theorem entry_of_kpt {i : Fin 1024} (hg : (bootLayout image nvram u).kpt d = some g) :
    d ≠ uvptIdx ∧ pteAt u.mem image.kdFrame (d, i) = presentEntry (u.mem g i) := by
  obtain ⟨hd, hg⟩ := h.kpt_eq_some.mp hg
  exact ⟨hd, pteAt_of_table hg⟩

/-- The window at `KERNBASE`. -/
theorem window {d i : Fin 1024} (hd : 960 ≤ d.val) :
    ∃ g, (bootLayout image nvram u).kpt d = some g ∧
      u.mem g i = page2pa ((d.val - 960) * 1024 + i.val) ||| pteW ||| pteP := by
  have hd' := d.isLt
  have hi := i.isLt
  have hindex : (d.val - 960) * 1024 + i.val < 65536 := by omega
  have hne : d ≠ uvptIdx := by
    rintro rfl
    exact absurd hd (by decide)
  have hsum : 983040 + ((d.val - 960) * 1024 + i.val) = d.val * 1024 + i.val := by omega
  have hmapped := h.mapped.inside windowRegion (by simp [kernelRegions]) _ hindex
  have hpage : windowRegion.page = 983040 := rfl
  have hframe : windowRegion.frame = 0 := rfl
  rw [hpage, hframe, hsum, vpn_index, Nat.zero_add, ← h.pteAt_eq hne] at hmapped
  cases hg : entryFrame (u.mem image.kdFrame d) with
  | none =>
    rw [pteAt_of_no_table hg] at hmapped
    cases hmapped
  | some g =>
    rw [pteAt_of_table hg] at hmapped
    refine ⟨g, h.kpt_eq_some.mpr ⟨hne, hg⟩, (presentEntry_eq_some.mp hmapped).2.trans ?_⟩
    have hperm : windowRegion.perm ||| pteP = pteW ||| pteP := by decide
    rw [newPte_eq, hperm, UInt32.or_assoc]

/-- The arrays are open to the user and read-only, the rest is the kernel's alone. -/
theorem allows_kernel {i : Fin 1024} {write user : Bool}
    (hg : (bootLayout image nvram u).kpt d = some g) (hv : allows (u.mem g i) write user) :
    allows ((if d.val < 957 then pteU else pteW) ||| pteP) write user := by
  obtain ⟨hd, hpte⟩ := h.entry_of_kpt (i := i) hg
  rw [presentEntry_of_present hv.1] at hpte
  obtain ⟨r, hr, k, hk, hindex, hval⟩ := h.region_of_pteAt hd hpte
  have hfits := h.entry.fits hr
  have hpage := hfits.page
  have hframe := hfits.frame
  have hd' : d.val = (r.page + k) / 1024 := by
    rw [← pdxIdx_pageVa (by omega)]
    exact congrArg (fun x : Vpn => x.1.val) hindex
  have hn := h.npages_le
  rw [hval, newPte_allows (by omega)] at hv
  have hu : pteU ||| pteP ||| pteP = pteU ||| pteP := by decide
  have hw : pteW ||| pteP ||| pteP = pteW ||| pteP := by decide
  have hle := h.entry.npages
  simp only [kernelRegions, List.mem_cons, List.not_mem_nil, or_false] at hr
  rcases hr with rfl | rfl | rfl | rfl
  · simp only [upagesRegion] at hd' hk hv
    rwa [if_pos (by omega), ← hu]
  · simp only [uenvsRegion] at hd' hk hv
    rwa [if_pos (by omega), ← hu]
  · simp only [stackRegion] at hd' hk hv
    rwa [if_neg (by omega), ← hw]
  · simp only [windowRegion] at hd' hk hv
    rwa [if_neg (by omega), ← hw]

/-- `mem_init` leaves a good layout. -/
theorem good (hroomy : Roomy image nvram) : (bootLayout image nvram u).Good where
  npages_le := h.npages_le
  kd_lt := by
    have habove := hroomy.above
    change image.kdFrame < (detected nvram).1
    unfold Image.firstFree at habove
    omega
  kd_resv := fun hmem => h.entry.notDir (h.mem_l.mpr hmem)
  kpt_managed := fun d g hg => h.managed_iff.mpr (h.isKpt_iff.mp ⟨d, hg⟩).1
  kpt_unique := by
    intro d d' g hg hg'
    obtain ⟨hd, hg⟩ := h.kpt_eq_some.mp hg
    obtain ⟨hd', hg'⟩ := h.kpt_eq_some.mp hg'
    rw [h.mem_kd] at hg hg'
    exact h.mapped.pgdir.tree.inj d d' g hd hd' hg hg'
  user_empty := by
    intro d hd hpresent
    have hne : d ≠ uvptIdx := by
      rintro rfl
      exact absurd hd (by decide)
    have hlow := (h.table_taken hne (entryFrame_eq_some.mpr ⟨hpresent, rfl⟩)).2.2
    omega
  image_resv := by
    intro f hlo hf hmem
    obtain ⟨-, hnb⟩ := hroomy.basemem
    have hkd := image.kdFrame_spec.1
    rw [mem_initList] at hmem
    change 4026531840 + f * 4096 < image.kend.toNat at hf
    unfold Image.firstFree at hmem
    omega
  image_lt := by
    have hkd := image.kdFrame_spec.1
    have habove := hroomy.above
    change image.kend.toNat ≤ 4026531840 + (detected nvram).1 * 4096
    unfold Image.firstFree at habove
    omega
  window := fun _ _ hd => h.window hd
  readonly := by
    intro d g i hg hd hv
    have hallows := h.allows_kernel hg hv
    rw [if_pos hd] at hallows
    exact absurd hallows (by decide)
  kernel_only := by
    intro d g i hg hd hv
    have hallows := h.allows_kernel hg hv
    rw [if_neg (by omega)] at hallows
    exact absurd hallows (by decide)

/-- A page that is no longer free is a page table with one reference. -/
theorem taken_pages (hp : p ∈ l) (hfree : p ∉ fl) :
    u.pages p = { ppLink := none, ppRef := 1 } := by
  obtain ⟨new, hnew, -⟩ := h.mapped.tables
  rw [h.shuffled.pages p hfree, Machine.loadPgdir_pages]
  rw [hnew.taken, List.mem_append] at hp
  have hcount := hnew.count p (hp.resolve_right hfree)
  refine (h.mapped.grown.pages p).resolve_left fun hsame => ?_
  have hmem : p ∈ l := hnew.taken ▸ List.mem_append_left fl (hp.resolve_right hfree)
  rw [hsame, h.entry.ref p hmem] at hcount
  exact absurd hcount (by decide)

/-- Only what `PagesOnly` names has changed since `page_init` was called. -/
theorem rest : ∃ s₀, Prepared image nvram mem s₀ ∧
    PagesOnly (s₀.loadPgdir (page2pa image.kdFrame)) u := by
  obtain ⟨s₀, hs₀, hrest, -⟩ := h.testing.start
  refine ⟨s₀, hs₀, ?_⟩
  exact ((hrest.trans h.mapped.grown.rest).loadPgdir _).trans h.shuffled.rest

theorem free (e : Fin nenv) : (u.envs e).envStatus = .free := by
  obtain ⟨s₀, hs₀, hrest⟩ := h.rest
  rw [hrest.envs, Machine.loadPgdir_envs, hs₀.envs]
  rfl

/-- The free list, and the counts of the kernel's page tables. -/
theorem pool : PagePool (bootLayout image nvram u) (own u.mem u.envs) u fl' := by
  have hfl {p : Nat} : p ∈ fl' ↔ p ∈ fl := h.perm.mem_iff
  have hsub {p : Nat} (hp : p ∈ fl) : p ∈ l := by
    obtain ⟨new, hnew, -⟩ := h.mapped.tables
    exact hnew.taken ▸ List.mem_append_right new hp
  refine ⟨h.chain, ?_, ?_, ?_, ?_, ?_⟩
  · exact fun p hp => h.managed_iff.mpr (hsub (hfl.mp hp))
  · intro p hp
    rw [h.ref p hp]
    rfl
  · intro p hp hfree
    rw [h.taken_pages (h.managed_iff.mp hp) (hfl.not.mp hfree)]
  · intro p hp
    rw [refs_eq_zero_iff.mpr fun x hx => by
      rw [own_of_no_env h.free x] at hx
      cases hx]
    by_cases hfree : p ∈ fl'
    · rw [h.ref p hfree, Layout.base_eq_zero.mpr fun hkpt => (h.isKpt_iff.mp hkpt).2 (hfl.mp hfree)]
      rfl
    · have hl := h.managed_iff.mp hp
      rw [h.taken_pages hl (hfl.not.mp hfree), Layout.base,
        if_pos (h.isKpt_iff.mpr ⟨hl, hfl.not.mp hfree⟩)]
      rfl
  · intro x p hx
    rw [own_of_no_env h.free x] at hx
    cases hx

theorem kinv (hroomy : Roomy image nvram) : KInv (bootLayout image nvram u) fl' u where
  good := h.good hroomy
  image := by
    obtain ⟨s₀, hs₀, hrest⟩ := h.rest
    exact (congrArg Machine.image hrest.eq :).trans hs₀.image_eq
  npages := by
    obtain ⟨s₀, hs₀, hrest⟩ := h.rest
    exact hrest.npages.trans hs₀.npages
  kernPgdir := by
    obtain ⟨s₀, hs₀, hrest⟩ := h.rest
    exact hrest.kernPgdir.trans hs₀.kernPgdir
  cr3 := by
    obtain ⟨s₀, -, hrest⟩ := h.rest
    exact ⟨_, hrest.cr3⟩
  pool := h.pool
  tables := by
    have hnone : ∀ x, own u.mem u.envs x = none := own_of_no_env h.free
    have hdir (e : Fin nenv) : dirFrame u.envs e = none := hnone (.dir e)
    refine ⟨?_, ?_, fun _ _ => rfl, ?_, ?_, ?_, ?_⟩
    · intro x y f _ _ hx
      rw [hnone x] at hx
      cases hx
    · intro x f _ hx
      rw [hnone x] at hx
      cases hx
    all_goals
      intro e f
      intros
      simp_all

end Facts

/-- `env_init` after it makes the kernel ready for environments. -/
theorem booted (h : Done image nvram mem l s t fl fl' u) (hroomy : Roomy image nvram) :
    ∃ efl, Booted (bootLayout image nvram u) fl' efl (u.initEnvs 0) := by
  obtain ⟨s₀, hs₀, hrest⟩ := h.rest
  have hlist : u.envFreeList = none := hrest.envFreeList.trans hs₀.envFreeList
  obtain ⟨efl, htable⟩ := initEnvs_table u hlist
  refine ⟨efl, ⟨⟨(h.kinv hroomy).initEnvs h.free, htable⟩, ?_⟩, ?_, ?_⟩
  · intro e
    simp [Machine.initEnvs, initRecord]
  · exact hrest.cr3
  · intro p hp hkernel
    by_contra hfree
    refine hkernel (.inr (h.isKpt_iff.mpr ⟨h.managed_iff.mp hp, ?_⟩))
    exact fun hfl => hfree (h.perm.mem_iff.mpr hfl)

end Done

end Jos
