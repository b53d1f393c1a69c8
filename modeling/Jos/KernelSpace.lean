import Jos.KernelBoot

/-!
The address space that `mem_init` builds, as `inc/memlayout.h` draws it, and when `mem_init`
returns.
-/

namespace Jos

variable {image : Image} {nvram : Nat → UInt8} {mem : Mem} {l fl fl' : List Nat}
  {s t u : Machine} {kd n pf ef f g : Nat} {r : Region} {va : UInt32} {write user : Bool}

/-- Where an address outside of the window at `UVPT` leads: `KERNBASE` and the stack below it are
the kernel's, the arrays `pages` and `envs` can only be read, and the rest is not mapped. The `n`
records of `pages` are mapped as far as they fill a page. -/
def kernelSpace (image : Image) (n pf ef : Nat) (va : UInt32) (write user : Bool) : Option Nat :=
  if kernbase.toNat ≤ va.toNat then
    if user then none else some (va.toNat - kernbase.toNat)
  else if (kstacktop - kstksize).toNat ≤ va.toNat then
    if user then none
    else some (image.stackFrame * 4096 + (va.toNat - (kstacktop - kstksize).toNat))
  else if upages.toNat ≤ va.toNat ∧ va.toNat < upages.toNat + n * 8 / 4096 * 4096 then
    if write then none else some (pf * 4096 + (va.toNat - upages.toNat))
  else if uenvs.toNat ≤ va.toNat ∧ va.toNat < uenvs.toNat + nenv * 96 then
    if write then none else some (ef * 4096 + (va.toNat - uenvs.toNat))
  else none

/-- The page directory `kd` has this address space; in the window at `UVPT` page `d` is the page
table behind the entry `d`, to be read by everyone. -/
structure KernelSpace (image : Image) (n pf ef kd : Nat) (s : Machine) : Prop where
  areas : ∀ va, pdxIdx va ≠ uvptIdx → ∀ write user,
    s.walk kd va write user = kernelSpace image n pf ef va write user
  tables : ∀ va, pdxIdx va = uvptIdx → ∀ write user, s.walk kd va write user =
    if write then none
    else (entryFrame (s.mem kd (ptxIdx va))).map fun g => g * 4096 + (pgoff va).toNat

theorem walk_eq_pteAt (hpde : ∀ g, entryFrame (s.mem f (pdxIdx va)) = some g →
      g < 1048576 ∧ s.mem f (pdxIdx va) = page2pa g ||| tableFlags) (write user : Bool) :
    s.walk f va write user = (pteAt s.mem f (vpn va)).bind fun v =>
      if allows v write user then some ((pteAddr v).toNat + (pgoff va).toNat) else none := by
  have hall : allows tableFlags write user := by
    cases write <;> cases user <;> decide
  cases hg : entryFrame (s.mem f (pdxIdx va)) with
  | none =>
    have hpresent : ¬ allows (s.mem f (pdxIdx va)) write user := fun h =>
      entryFrame_eq_none.mp hg h.1
    rw [vpn, pteAt_of_no_table hg]
    simp only [Machine.walk, if_neg hpresent, Option.bind_none]
  | some g =>
    obtain ⟨hlt, hval⟩ := hpde g hg
    have hframe : frameOf (s.mem f (pdxIdx va)) = g := (entryFrame_eq_some.mp hg).2
    have hallows : allows (s.mem f (pdxIdx va)) write user := by
      rw [hval, allows_entry hlt]
      exact hall
    rw [vpn, pteAt_of_table hg]
    simp only [Machine.walk, if_pos hallows, hframe]
    by_cases hpte : present (s.mem g (ptxIdx va))
    · rw [presentEntry_of_present hpte, Option.bind_some]
    · rw [presentEntry_eq_none.mpr hpte, Option.bind_none, if_neg fun h => hpte h.1]

theorem walk_congr {s' : Machine} (hf : s'.mem f = s.mem f)
    (hg : ∀ g, entryFrame (s.mem f (pdxIdx va)) = some g → s'.mem g = s.mem g) :
    s'.walk f va write user = s.walk f va write user := by
  simp only [Machine.walk, hf]
  split
  · rename_i hpde
    rw [hg _ (entryFrame_eq_some.mpr ⟨hpde.1, rfl⟩)]
  · rfl

section Mapped

variable (h : MapEntry kd pf ef l s)
  (hm : RegionsMapped kd (kernelRegions s.image s.npages pf ef) s l t fl)

include h hm

theorem MapEntry.table_flags {d : Fin 1024} (hd : d ≠ uvptIdx)
    (hg : entryFrame (t.mem kd d) = some g) :
    g < 1048576 ∧ t.mem kd d = page2pa g ||| tableFlags := by
  rcases hm.grown.dir d with hsame | ⟨-, -, g', hg', hnew⟩
  · rw [hsame, h.empty d hd, entryFrame_zero] at hg
    cases hg
  · have hlt := h.lt g' hg'
    have hle := h.npages
    rw [hnew, entryFrame_pde_entry (by omega)] at hg
    obtain rfl := Option.some.inj hg
    exact ⟨by omega, hnew⟩

theorem MapEntry.walk_inside (hr : r ∈ kernelRegions s.image s.npages pf ef)
    (hlo : r.page * 4096 ≤ va.toNat) (hhi : va.toNat < (r.page + r.count) * 4096) :
    t.walk kd va write user = if allows (r.perm ||| pteP) write user then
      some (r.frame * 4096 + (va.toNat - r.page * 4096)) else none := by
  obtain ⟨hpage, hframe, huvpt, hperm⟩ := h.fits hr
  obtain ⟨i, hi, hnum⟩ : ∃ i < r.count, va.toNat / 4096 = r.page + i :=
    ⟨va.toNat / 4096 - r.page, by omega, by omega⟩
  have hvpn : vpn va = vpn (pageVa (r.page + i)) := by rw [vpn_pageVa va, hnum]
  have hd : pdxIdx va ≠ uvptIdx := by
    intro heq
    refine huvpt (Finset.mem_image.mpr ⟨i, Finset.mem_range.mpr hi, ?_⟩)
    rw [← heq]
    exact (congrArg Prod.fst hvpn).symm
  have haddr : (r.frame + i) * 4096 + va.toNat % 4096 =
      r.frame * 4096 + (va.toNat - r.page * 4096) := by omega
  rw [walk_eq_pteAt (fun g hg => h.table_flags hm hd hg), hvpn, hm.inside r hr i hi,
    Option.bind_some, pteAddr_eq_page2pa, frameOf_newPte (by omega) hperm,
    page2pa_toNat (by omega), pgoff_toNat, haddr]
  simp only [newPte_allows (show r.frame + i < 1048576 by omega)]

theorem MapEntry.walk_outside (hd : pdxIdx va ≠ uvptIdx)
    (hno : ∀ r ∈ kernelRegions s.image s.npages pf ef,
      va.toNat < r.page * 4096 ∨ (r.page + r.count) * 4096 ≤ va.toNat) :
    t.walk kd va write user = none := by
  rw [walk_eq_pteAt (fun g hg => h.table_flags hm hd hg), hm.outside _ hd, h.pteAt_none hd,
    Option.bind_none]
  rintro r hr ⟨i, hi, heq⟩
  have hlt := toNat_lt va
  have hpage := (h.fits hr).page
  rw [vpn_pageVa va] at heq
  have hsame := vpn_pageVa_inj (by omega) (by omega) heq
  have hclear := hno r hr
  omega

/-- The window at `UVPT`. -/
theorem MapEntry.walk_self (hd : pdxIdx va = uvptIdx) : t.walk kd va write user =
    if write then none
    else (entryFrame (t.mem kd (ptxIdx va))).map fun g => g * 4096 + (pgoff va).toNat := by
  have hkd := h.dirWindow.lt
  have hself := h.pde_self hm
  rw [UInt32.or_assoc] at hself
  have hframe : frameOf (t.mem kd uvptIdx) = kd := by
    rw [hself, frameOf_entry (by omega) (by decide)]
  have hallows : allows (t.mem kd uvptIdx) write user ↔ write = false := by
    rw [hself, allows_entry (by omega)]
    cases write <;> cases user <;> decide
  cases write with
  | true =>
    rw [if_pos rfl]
    simp only [Machine.walk, hd]
    rw [if_neg fun hall => absurd (hallows.mp hall) (by decide)]
  | false =>
    have hread : present (t.mem kd (ptxIdx va)) → allows (t.mem kd (ptxIdx va)) false user := by
      intro hpresent
      by_cases hidx : ptxIdx va = uvptIdx
      · rw [hidx]
        exact hallows.mpr rfl
      · obtain ⟨hlt, hval⟩ := h.table_flags hm hidx (entryFrame_eq_some.mpr ⟨hpresent, rfl⟩)
        rw [hval, allows_entry hlt]
        cases user <;> decide
    simp only [Machine.walk, hd, if_pos (hallows.mpr rfl), hframe]
    by_cases hpresent : present (t.mem kd (ptxIdx va))
    · rw [if_pos (hread hpresent), entryFrame_eq_some.mpr ⟨hpresent, rfl⟩, pteAddr_eq_page2pa,
        page2pa_toNat (frameOf_lt _)]
      rfl
    · rw [if_neg fun hall => hpresent hall.1, entryFrame_eq_none.mpr hpresent]
      rfl

theorem MapEntry.walk_window (hva : 4026531840 ≤ va.toNat) :
    t.walk kd va write user = if user then none else some (va.toNat - 4026531840) := by
  have hlt := toNat_lt va
  have hperm : allows (pteW ||| pteP ||| pteP) write user ↔ ¬ user = true := by
    cases write <;> cases user <;> decide
  rw [h.walk_inside hm (r := windowRegion) (by simp [kernelRegions])
    (by simp only [windowRegion]; omega) (by simp only [windowRegion]; omega)]
  simp only [windowRegion, hperm, Nat.zero_mul, Nat.zero_add, ite_not]

theorem MapEntry.walk_stack (hlo : 4026499072 ≤ va.toNat) (hhi : va.toNat < 4026531840) :
    t.walk kd va write user = if user then none else
      some (s.image.stackFrame * 4096 + (va.toNat - 4026499072)) := by
  have hperm : allows (pteW ||| pteP ||| pteP) write user ↔ ¬ user = true := by
    cases write <;> cases user <;> decide
  have hpage : (stackRegion s.image).page = 983032 := rfl
  have hcount : (stackRegion s.image).count = 8 := rfl
  have hstart : 983032 * 4096 = 4026499072 := by decide
  rw [h.walk_inside hm (r := stackRegion s.image) (by simp [kernelRegions]) (by omega)
    (by omega), hpage, hstart]
  simp only [stackRegion, hperm, ite_not]

theorem MapEntry.walk_upages (hlo : 4009754624 ≤ va.toNat)
    (hhi : va.toNat < 4009754624 + s.npages * 8 / 4096 * 4096) :
    t.walk kd va write user = if write then none else
      some (pf * 4096 + (va.toNat - 4009754624)) := by
  have hperm : allows (pteU ||| pteP ||| pteP) write user ↔ ¬ write = true := by
    cases write <;> cases user <;> decide
  have hpage : (upagesRegion s.npages pf).page = 978944 := rfl
  have hcount : (upagesRegion s.npages pf).count = s.npages * 8 / 4096 := rfl
  have hstart : 978944 * 4096 = 4009754624 := by decide
  rw [h.walk_inside hm (r := upagesRegion s.npages pf) (by simp [kernelRegions]) (by omega)
    (by omega), hpage, hstart]
  simp only [upagesRegion, hperm, ite_not]

theorem MapEntry.walk_uenvs (hlo : 4005560320 ≤ va.toNat)
    (hhi : va.toNat < 4005560320 + 98304) :
    t.walk kd va write user = if write then none else
      some (ef * 4096 + (va.toNat - 4005560320)) := by
  have hperm : allows (pteU ||| pteP ||| pteP) write user ↔ ¬ write = true := by
    cases write <;> cases user <;> decide
  have hpage : (uenvsRegion ef).page = 977920 := rfl
  have hcount : (uenvsRegion ef).count = 24 := rfl
  have hstart : 977920 * 4096 = 4005560320 := by decide
  rw [h.walk_inside hm (r := uenvsRegion ef) (by simp [kernelRegions]) (by omega) (by omega),
    hpage, hstart]
  simp only [uenvsRegion, hperm, ite_not]

/-- The four calls of `boot_map_region` build the address space. -/
theorem MapEntry.kernelSpace : KernelSpace s.image s.npages pf ef kd t where
  tables va hd write user := h.walk_self hm hd
  areas va hd write user := by
    have hbase : kernbase.toNat = 4026531840 := rfl
    have hstack : (kstacktop - kstksize).toNat = 4026499072 := rfl
    have hupages : upages.toNat = 4009754624 := rfl
    have huenvs : uenvs.toNat = 4005560320 := rfl
    have hsize : nenv * 96 = 98304 := rfl
    rw [Jos.kernelSpace, hbase, hstack, hupages, huenvs, hsize]
    clear hbase hstack hupages huenvs hsize
    split
    · rename_i hkern
      exact h.walk_window hm hkern
    split
    · rename_i hkern hstk
      exact h.walk_stack hm hstk (by omega)
    split
    · rename_i hpages
      exact h.walk_upages hm hpages.1 hpages.2
    split
    · rename_i henvs
      exact h.walk_uenvs hm henvs.1 henvs.2
    rename_i hkern hstk hpages henvs
    refine h.walk_outside hm hd ?_
    intro r hr
    have hle := h.npages
    simp only [kernelRegions, List.mem_cons, List.not_mem_nil, or_false] at hr
    rcases hr with rfl | rfl | rfl | rfl
    · simp only [upagesRegion]
      omega
    · simp only [uenvsRegion]
      omega
    · simp only [stackRegion]
      omega
    · simp only [windowRegion]
      omega

end Mapped

/-- The address space only depends on the page directory and its page tables. -/
theorem KernelSpace.congr {s' : Machine} (h : KernelSpace image n pf ef kd s)
    (hkd : s'.mem kd = s.mem kd)
    (htables : ∀ d g, entryFrame (s.mem kd d) = some g → s'.mem g = s.mem g) :
    KernelSpace image n pf ef kd s' where
  areas va hd write user :=
    (walk_congr hkd (htables _)).trans (h.areas va hd write user)
  tables va hd write user := by
    rw [hkd, ← h.tables va hd write user]
    exact walk_congr hkd (htables _)

namespace Done

variable (h : Done image nvram mem l s t fl fl' u)

include h

/-- The tests that follow leave the tables alone, the one at `UVPT` included. -/
theorem mem_named {d : Fin 1024} (hg : entryFrame (t.mem image.kdFrame d) = some g) :
    u.mem g = t.mem g := by
  by_cases hd : d = uvptIdx
  · have hkd := h.entry.dirWindow.lt
    rw [hd, h.entry.pde_self h.mapped, UInt32.or_assoc] at hg
    have hframe := (entryFrame_eq_some.mp hg).2
    rw [frameOf_entry (by omega) (by decide)] at hframe
    rw [← hframe]
    exact h.mem_kd
  · exact h.mem_table hd hg

theorem kernelSpace : KernelSpace image (detected nvram).1 (image.kdFrame + 1)
    (image.kdFrame + 1 + pagesFrames (detected nvram).1) image.kdFrame u := by
  have hspace := h.entry.kernelSpace h.mapped
  rw [h.testing.image_eq, h.testing.npages] at hspace
  exact hspace.congr h.mem_kd fun d g hg => h.mem_named hg

end Done

/-- `mem_init` builds the address space of `inc/memlayout.h` before it checks it, and hands it over
when it returns. -/
theorem memInit_builds_space (h : Roomy image nvram) (mem : Mem) :
    (∃ t, memInitBuild.run (Machine.atEntry image nvram mem) = .ok ((), t) ∧
      KernelSpace image (detected nvram).1 (image.kdFrame + 1)
        (image.kdFrame + 1 + pagesFrames (detected nvram).1) image.kdFrame t) ∧
    ∀ u, memInit.run (Machine.atEntry image nvram mem) = .ok ((), u) →
      u.cr3 = .pgdir (page2pa image.kdFrame) ∧
      KernelSpace image (detected nvram).1 (image.kdFrame + 1)
        (image.kdFrame + 1 + pagesFrames (detected nvram).1) image.kdFrame u := by
  constructor
  · obtain ⟨l, s, t, fl, hrun, htesting, -, hentry, hmapped⟩ := h.built mem
    have hspace := hentry.kernelSpace hmapped
    rw [htesting.image_eq, htesting.npages] at hspace
    exact ⟨t, hrun, hspace⟩
  · intro u hrun
    by_cases hn : (detected nvram).1 % 512 = 0
    · obtain ⟨l, s, t, fl, fl', u', hrun', hdone⟩ := h.done mem hn
      rw [hrun] at hrun'
      obtain rfl : u = u' := by
        cases hrun'
        rfl
      exact ⟨hdone.shuffled.rest.cr3, hdone.kernelSpace⟩
    · rw [h.stops mem hn] at hrun
      cases hrun

/-- The first page above the I/O hole, in a kernel with 128 MB. -/
theorem memInit_builds_space_sample : ∃ u,
    memInit.run (Machine.atEntry sampleImage (sampleNvram 1792) fun _ _ => 0) = .ok ((), u) ∧
      u.walk 280 0xF0100000 true false = some 0x100000 ∧
      u.walk 280 0xF0100000 true true = none := by
  have hkd : sampleImage.kdFrame = 280 := by decide
  obtain ⟨l, s, t, fl, fl', u, hrun, -⟩ := sampleNvram_roomy.done (fun _ _ => 0) (by decide)
  have hspace := ((memInit_builds_space sampleNvram_roomy fun _ _ => 0).2 u hrun).2
  rw [hkd] at hspace
  refine ⟨u, hrun, ?_, ?_⟩
  · exact (hspace.areas 0xF0100000 (by decide) true false).trans (by decide)
  · exact (hspace.areas 0xF0100000 (by decide) true true).trans (by decide)

/-- With enough memory `mem_init` stops in `check_kern_pgdir` unless the number of pages is a
multiple of 512. -/
theorem memInit_returns_iff (h : Roomy image nvram) (mem : Mem) :
    ((∃ u, memInit.run (Machine.atEntry image nvram mem) = .ok ((), u)) ↔
      (detected nvram).1 % 512 = 0) ∧
    ((detected nvram).1 % 512 ≠ 0 → memInit.run (Machine.atEntry image nvram mem) =
      .error (.panic ("assertion failed: " ++
        "check_va2pa(pgdir, UPAGES + i) == PADDR(pages) + i"))) := by
  refine ⟨⟨?_, ?_⟩, fun hn => h.stops mem hn⟩
  · rintro ⟨u, hrun⟩
    by_contra hn
    rw [h.stops mem hn] at hrun
    cases hrun
  · intro hn
    obtain ⟨l, s, t, fl, fl', u, hrun, -⟩ := h.done mem hn
    exact ⟨u, hrun⟩

/-- It returns with 128 MB, and not with 64 KB more. -/
theorem memInit_returns_iff_sample :
    (∃ u, memInit.run (Machine.atEntry sampleImage (sampleNvram 1792) fun _ _ => 0) = .ok ((), u)) ∧
    ¬ ∃ u, memInit.run (Machine.atEntry sampleImage (sampleNvram 1793) fun _ _ => 0) =
      .ok ((), u) := by
  have hmore : Roomy sampleImage (sampleNvram 1793) :=
    roomy_of_detected sampleNvram_detected.2 (by decide) (by decide) (by decide)
  constructor
  · exact (memInit_returns_iff sampleNvram_roomy fun _ _ => 0).1.mpr (by decide)
  · rw [(memInit_returns_iff hmore fun _ _ => 0).1]
    decide

end Jos
