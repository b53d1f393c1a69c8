import Jos.MemInitMap

/-!
`check_kern_pgdir` after the four calls of `boot_map_region`: it passes exactly when the array
`pages` fills its last page, which is when the number of pages is a multiple of 512.
-/

namespace Jos

variable {s t : Machine} {kd pf ef k : Nat} {l fl : List Nat} {r : Region} {d : Fin 1024}
  {image : Image}

theorem pageVa_add {p : Nat} (hk : p + k < 1048576) :
    pageVa p + UInt32.ofNat k * pgsize = pageVa (p + k) := by
  have hsize : pgsize.toNat = 4096 := rfl
  apply UInt32.toNat_inj.mp
  rw [UInt32.toNat_add, UInt32.toNat_mul, UInt32.toNat_ofNat', hsize, pageVa_toNat (by omega),
    pageVa_toNat hk]
  omega

section Arrays

variable {rs : List Region} (h : RegionsMapped kd rs s l t fl) (hfits : ∀ r ∈ rs, r.Fits)

include h hfits

/-- `check_va2pa` inside of a region. -/
theorem RegionsMapped.checkVa2pa_inside (hr : r ∈ rs) (hk : k < r.count) :
    (checkVa2pa (kva kd) (pageVa r.page + UInt32.ofNat k * pgsize)).run t =
      .ok (pageVa r.frame + UInt32.ofNat k * pgsize, t) := by
  obtain ⟨hpage, hframe, huvpt, hperm⟩ := hfits r hr
  have hd : pdxIdx (pageVa (r.page + k)) ≠ uvptIdx := fun heq =>
    huvpt (Finset.mem_image.mpr ⟨k, Finset.mem_range.mpr hk, heq⟩)
  have hpa : pageVa r.frame + UInt32.ofNat k * pgsize = page2pa (r.frame + k) :=
    (pageVa_add (by omega)).trans (pageVa_eq_page2pa (by omega))
  rw [pageVa_add (by omega), h.pgdir.check hd, h.inside r hr k hk, Option.map_some,
    Option.getD_some, pteAddr_eq_page2pa, frameOf_newPte (by omega) hperm, hpa]

/-- The assertions for the first `n` pages of a region hold. -/
theorem RegionsMapped.checkMapped_ok (hr : r ∈ rs) {n : Nat} (hn : n ≤ r.count) (text : String) :
    (checkMapped (kva kd) (pageVa r.page) (pageVa r.frame) text n).run t = .ok ((), t) := by
  refine Prog.forRange_same fun k _ hk => ?_
  refine (Prog.bind_of_ok (h.checkVa2pa_inside hfits hr (by omega))).trans ?_
  exact kassert_run rfl text t

omit hfits in
/-- `check_va2pa` outside of the regions, where nothing was mapped before. -/
theorem RegionsMapped.checkVa2pa_outside (hempty : ∀ m : Vpn, m.1 ≠ uvptIdx →
      pteAt s.mem kd m = none) (hk : k < 1048576) (huvpt : k / 1024 ≠ 957)
    (hout : ∀ r ∈ rs, r.page + r.count ≤ 1048576 ∧ (k < r.page ∨ r.page + r.count ≤ k)) :
    (checkVa2pa (kva kd) (pageVa k)).run t = .ok (~~~0, t) := by
  have hd : pdxIdx (pageVa k) ≠ uvptIdx := fun heq =>
    huvpt ((pdxIdx_pageVa hk).symm.trans (congrArg Fin.val heq))
  rw [h.pgdir.check hd, h.outside _ hd, hempty _ hd, Option.map_none, Option.getD_none]
  rintro r hr ⟨i, hi, heq⟩
  obtain ⟨hpage, hclear⟩ := hout r hr
  have hsame := vpn_pageVa_inj hk (by omega) heq
  omega

end Arrays

section Directory

variable (h : MapEntry kd pf ef l s)
  (hm : RegionsMapped kd (kernelRegions s.image s.npages pf ef) s l t fl)

include h hm

omit hm in
theorem MapEntry.fits (hr : r ∈ kernelRegions s.image s.npages pf ef) : r.Fits :=
  kernelRegions_fits h.npages h.pf_lt h.ef_lt hr

omit hm in
/-- The entries of `kern_pgdir` that the regions need. -/
theorem MapEntry.mem_tables (hr : r ∈ kernelRegions s.image s.npages pf ef) (hmem : d ∈ r.tables) :
    d.val = 955 ∨ d.val = 956 ∨ d.val = 959 ∨ 960 ≤ d.val := by
  have hle := h.npages
  obtain ⟨i, hi, hval⟩ := (Region.mem_tables (h.fits hr).page).mp hmem
  simp only [kernelRegions, List.mem_cons, List.not_mem_nil, or_false] at hr
  rcases hr with rfl | rfl | rfl | rfl
  · simp only [upagesRegion] at hi hval
    omega
  · simp only [uenvsRegion] at hi hval
    omega
  · simp only [stackRegion] at hi hval
    omega
  · simp only [windowRegion] at hi hval
    omega

omit hm in
/-- With a page of the array `pages` at least they are all needed. -/
theorem MapEntry.exists_tables (hn : 512 ≤ s.npages)
    (hd : d.val = 955 ∨ d.val = 956 ∨ d.val = 959 ∨ 960 ≤ d.val) :
    ∃ r ∈ kernelRegions s.image s.npages pf ef, d ∈ r.tables := by
  have hlt := d.isLt
  have hmem {r : Region} (hr : r ∈ kernelRegions s.image s.npages pf ef) (i : Nat)
      (hi : i < r.count) (hval : (r.page + i) / 1024 = d.val) :
      ∃ r ∈ kernelRegions s.image s.npages pf ef, d ∈ r.tables :=
    ⟨r, hr, (Region.mem_tables (h.fits hr).page).mpr ⟨i, hi, hval⟩⟩
  rcases hd with hval | hval | hval | hval
  · exact hmem (r := uenvsRegion ef) (by simp [kernelRegions]) 0 (by simp only [uenvsRegion]; omega)
      (by simp only [uenvsRegion]; omega)
  · exact hmem (r := upagesRegion s.npages pf) (by simp [kernelRegions]) 0
      (by simp only [upagesRegion]; omega) (by simp only [upagesRegion]; omega)
  · exact hmem (r := stackRegion s.image) (by simp [kernelRegions]) 0
      (by simp only [stackRegion]; omega) (by simp only [stackRegion]; omega)
  · exact hmem (r := windowRegion) (by simp [kernelRegions]) ((d.val - 960) * 1024)
      (by simp only [windowRegion]; omega) (by simp only [windowRegion]; omega)

/-- Entries of `kern_pgdir` for no region stay empty. -/
theorem MapEntry.pde_zero (hd : d ≠ uvptIdx)
    (hno : ∀ r ∈ kernelRegions s.image s.npages pf ef, d ∉ r.tables) : t.mem kd d = 0 := by
  rcases hm.grown.dir d with hsame | ⟨-, ⟨r, hr, hmem⟩, -⟩
  · rw [hsame]
    exact h.empty d hd
  · exact absurd hmem (hno r hr)

/-- The entry for a page of a region points to a page table. -/
theorem MapEntry.pde_table (hr : r ∈ kernelRegions s.image s.npages pf ef) (hd : d ∈ r.tables) :
    ∃ g ∈ l, g < 1048576 ∧ t.mem kd d = page2pa g ||| tableFlags := by
  obtain ⟨hpage, -, huvpt, -⟩ := h.fits hr
  have hd' : d ≠ uvptIdx := fun heq => huvpt (heq ▸ hd)
  rcases hm.grown.dir d with hsame | ⟨-, -, g, hg, hnew⟩
  · obtain ⟨i, hi, rfl⟩ := Finset.mem_image.mp hd
    have hinside := hm.inside r hr i (Finset.mem_range.mp hi)
    have hnone : entryFrame (t.mem kd (pdxIdx (pageVa (r.page + i)))) = none := by
      rw [hsame, h.empty _ hd', entryFrame_zero]
    rw [vpn, pteAt_of_no_table hnone] at hinside
    cases hinside
  · have hlt := h.lt g hg
    have hle := h.npages
    exact ⟨g, hg, by omega, hnew⟩

theorem MapEntry.pde_self : t.mem kd uvptIdx = page2pa kd ||| pteU ||| pteP := by
  have hkd := h.dirWindow.lt
  have hframe : entryFrame (s.mem kd uvptIdx) ≠ none := by
    rw [h.self, ne_eq, entryFrame_eq_none, not_not, UInt32.or_assoc, present_entry (by omega)]
    decide
  rw [hm.grown.kept hframe, h.self]

/-- A round of the loop over the page directory. -/
theorem MapEntry.checkPde_ok (hn : 512 ≤ s.npages) {i : Nat} (hi : i < 1024) :
    (checkPde (kva kd) i).run t = .ok ((), t) := by
  have hkd := hm.pgdir.dirWindow
  have hload : (kload (entryPtr (kva kd) (UInt32.ofNat i))).run t = .ok (t.mem kd ⟨i, hi⟩, t) := by
    rw [entryPtr_ofNat hkd.lt ⟨i, hi⟩, kload_wordPtr _ hkd]
  have huvpt : (pdx uvpt).toNat = 957 := by decide
  have hstack : (pdx (kstacktop - 1)).toNat = 959 := by decide
  have hupages : (pdx upages).toNat = 956 := by decide
  have huenvs : (pdx uenvs).toNat = 955 := by decide
  have hbase : (pdx kernbase).toNat = 960 := by decide
  refine (Prog.bind_of_ok hload).trans ?_
  rw [huvpt, hstack, hupages, huenvs, hbase]
  by_cases hself : i = 957
  · have hd : (⟨i, hi⟩ : Fin 1024) = uvptIdx := Fin.ext hself
    have hpresent : present (t.mem kd ⟨i, hi⟩) := by
      rw [hd, h.pde_self hm, UInt32.or_assoc, present_entry (by have hlt := hkd.lt; omega)]
      decide
    rw [if_pos (.inl hself)]
    exact kassert_run hpresent _ t
  have hd : (⟨i, hi⟩ : Fin 1024) ≠ uvptIdx := fun heq => hself (congrArg Fin.val heq)
  by_cases htable : i = 955 ∨ i = 956 ∨ i = 959 ∨ 960 ≤ i
  · obtain ⟨r, hr, hmem⟩ := h.exists_tables hn (d := ⟨i, hi⟩) htable
    obtain ⟨g, -, hg, hpde⟩ := h.pde_table hm hr hmem
    have hpresent : present (t.mem kd ⟨i, hi⟩) := by
      rw [hpde, present_entry hg]
      decide
    have hwrite : t.mem kd ⟨i, hi⟩ &&& pteW ≠ 0 := by
      rw [hpde, entry_and hg (by decide)]
      decide
    by_cases hlow : i = 957 ∨ i = 959 ∨ i = 956 ∨ i = 955
    · rw [if_pos hlow]
      exact kassert_run hpresent _ t
    · rw [if_neg hlow, if_pos (by omega), Prog.bind_of_ok (kassert_run hpresent _ t)]
      exact kassert_run hwrite _ t
  · have hzero : t.mem kd ⟨i, hi⟩ = 0 := h.pde_zero hm hd fun r hr hmem =>
      htable (h.mem_tables hr hmem)
    rw [if_neg (by omega), if_neg (by omega)]
    exact kassert_run hzero _ t

omit h in
/-- What `check_kern_pgdir` reads before its loops. -/
theorem MapEntry.reads (h : MapEntry kd pf ef l s) :
    t.kernPgdir = kva kd ∧ t.npages = s.npages ∧ t.pagesKva = kva pf ∧ t.envsKva = kva ef ∧
      t.image = s.image := by
  have hrest := hm.grown.rest
  exact ⟨hrest.kernPgdir.trans h.kernPgdir, hrest.npages,
    (congrArg Machine.pagesKva hrest.eq :).trans h.pagesKva,
    (congrArg Machine.envsKva hrest.eq :).trans h.envsKva, (congrArg Machine.image hrest.eq :)⟩

/-- The loop over `UPAGES`. -/
theorem MapEntry.checkUpages (text : String) :
    (s.npages % 512 = 0 → (checkMapped (kva kd) upages (page2pa pf) text
      (roundUp (UInt32.ofNat s.npages * sizeofPageInfo) pgsize / pgsize).toNat).run t =
        .ok ((), t)) ∧
    (s.npages % 512 ≠ 0 → (checkMapped (kva kd) upages (page2pa pf) text
      (roundUp (UInt32.ofNat s.npages * sizeofPageInfo) pgsize / pgsize).toNat).run t =
        .error (.panic ("assertion failed: " ++ text))) := by
  have hle := h.npages
  have hpf := h.pf_lt
  have hsize : pgsize.toNat = 4096 := rfl
  have hfits {r : Region} (hr : r ∈ kernelRegions s.image s.npages pf ef) := h.fits hr
  have hmem : upagesRegion s.npages pf ∈ kernelRegions s.image s.npages pf ef := by
    simp [kernelRegions]
  have hcount : (roundUp (UInt32.ofNat s.npages * sizeofPageInfo) pgsize / pgsize).toNat =
      (s.npages * 8 + 4095) / 4096 := by
    rw [UInt32.toNat_div, roundUp_pgsize_toNat, pagesSize_toNat (by omega), hsize]
    omega
  have hva : upages = pageVa (upagesRegion s.npages pf).page := by
    have hpage : upages = pageVa 978944 := by decide
    exact hpage
  have hpa : page2pa pf = pageVa (upagesRegion s.npages pf).frame :=
    (pageVa_eq_page2pa (by omega)).symm
  rw [hcount, hva, hpa]
  constructor
  · intro hn
    refine hm.checkMapped_ok (fun r hr => hfits hr) hmem ?_ text
    simp only [upagesRegion]
    omega
  · intro hn
    have hlast : s.npages * 8 / 4096 < (s.npages * 8 + 4095) / 4096 := by omega
    refine Prog.forRange_stops (fun k _ hk => ?_) hlast ?_
    · refine (Prog.bind_of_ok (hm.checkVa2pa_inside (fun r hr => hfits hr) hmem
        (by simp only [upagesRegion]; omega))).trans ?_
      exact kassert_run rfl text t
    · rw [Nat.zero_add]
      have hpage : pageVa (upagesRegion s.npages pf).page +
          UInt32.ofNat (s.npages * 8 / 4096) * pgsize = pageVa (978944 + s.npages * 8 / 4096) :=
        pageVa_add (by simp only [upagesRegion]; omega)
      have hunmapped := hm.checkVa2pa_outside (fun m hne => h.toBootPool.pteAt_none hne)
        (k := 978944 + s.npages * 8 / 4096) (by omega) (by omega) (by
          intro r hr
          refine ⟨(hfits hr).page, ?_⟩
          simp only [kernelRegions, List.mem_cons, List.not_mem_nil, or_false] at hr
          rcases hr with rfl | rfl | rfl | rfl
          · simp only [upagesRegion]
            omega
          · simp only [uenvsRegion]
            omega
          · simp only [stackRegion]
            omega
          · simp only [windowRegion]
            omega)
      have hother : ¬ (~~~0 : UInt32) = pageVa (upagesRegion s.npages pf).frame +
          UInt32.ofNat (s.npages * 8 / 4096) * pgsize := by
        rw [pageVa_add (by simp only [upagesRegion]; omega)]
        intro heq
        have hval := congrArg UInt32.toNat heq
        have hones : (~~~0 : UInt32).toNat = 4294967295 := rfl
        rw [hones, pageVa_toNat (by simp only [upagesRegion]; omega)] at hval
        omega
      rw [← hpage] at hunmapped
      refine (Prog.bind_of_ok hunmapped).trans ?_
      exact kassert_fails hother text t

/-- `check_kern_pgdir` passes when the number of pages is a multiple of 512. -/
theorem MapEntry.checkKernPgdir_ok (hn : s.npages % 512 = 0) (hpos : s.npages ≠ 0) :
    checkKernPgdir.run t = .ok ((), t) := by
  have hle := h.npages
  have hpf := h.pf_lt
  have hef := h.ef_lt
  have hfits {r : Region} (hr : r ∈ kernelRegions s.image s.npages pf ef) := h.fits hr
  obtain ⟨hkern, hnpages, hpages, henvs, himage⟩ := h.reads hm
  obtain ⟨hstack, -, hstackEnd⟩ := s.image.stackFrame_spec
  have hbelow : s.image.stackFrame < 65536 := by omega
  have hva {p : Nat} (hp : p < 65536) : page2pa p = pageVa p := (pageVa_eq_page2pa (by omega)).symm
  have hloop₁ := (h.checkUpages hm "check_va2pa(pgdir, UPAGES + i) == PADDR(pages) + i").1 hn
  have hloop₂ : (checkMapped (kva kd) uenvs (page2pa ef)
      "check_va2pa(pgdir, UENVS + i) == PADDR(envs) + i"
      (roundUp (UInt32.ofNat nenv * sizeofEnv) pgsize / pgsize).toNat).run t = .ok ((), t) := by
    have hcount : (roundUp (UInt32.ofNat nenv * sizeofEnv) pgsize / pgsize).toNat =
        (uenvsRegion ef).count := by
      have h24 : (roundUp (UInt32.ofNat nenv * sizeofEnv) pgsize / pgsize).toNat = 24 := by decide
      exact h24
    have hpage : uenvs = pageVa (uenvsRegion ef).page := by
      have hnumber : uenvs = pageVa 977920 := by decide
      exact hnumber
    have hpa : page2pa ef = pageVa (uenvsRegion ef).frame := hva hef
    rw [hcount, hpage, hpa]
    exact hm.checkMapped_ok (fun r hr => hfits hr) (r := uenvsRegion ef) (by simp [kernelRegions])
      le_rfl _
  have hloop₃ : (checkMapped (kva kd) kernbase 0 "check_va2pa(pgdir, KERNBASE + i) == i"
      (UInt32.ofNat s.npages * pgsize / pgsize).toNat).run t = .ok ((), t) := by
    have hcount : (UInt32.ofNat s.npages * pgsize / pgsize).toNat = s.npages := by
      have hsize : pgsize.toNat = 4096 := rfl
      rw [UInt32.toNat_div, UInt32.toNat_mul, UInt32.toNat_ofNat', hsize]
      omega
    have hpage : kernbase = pageVa windowRegion.page := by decide
    have hzero : (0 : UInt32) = pageVa windowRegion.frame := by decide
    rw [hcount, hpage, hzero]
    exact hm.checkMapped_ok (fun r hr => hfits hr) (r := windowRegion) (by simp [kernelRegions])
      hle _
  have hloop₄ : (checkMapped (kva kd) (kstacktop - kstksize) (page2pa s.image.stackFrame)
      "check_va2pa(pgdir, KSTACKTOP - KSTKSIZE + i) == PADDR(bootstack) + i"
      (kstksize / pgsize).toNat).run t = .ok ((), t) := by
    have hcount : (kstksize / pgsize).toNat = (stackRegion s.image).count := by
      have h8 : (kstksize / pgsize).toNat = 8 := by decide
      exact h8
    have hpage : kstacktop - kstksize = pageVa (stackRegion s.image).page := by
      have hnumber : kstacktop - kstksize = pageVa 983032 := by decide
      exact hnumber
    have hpa : page2pa s.image.stackFrame = pageVa (stackRegion s.image).frame := hva hbelow
    rw [hcount, hpage, hpa]
    exact hm.checkMapped_ok (fun r hr => hfits hr) (r := stackRegion s.image)
      (by simp [kernelRegions]) le_rfl _
  have hguard : (checkVa2pa (kva kd) (kstacktop - ptsize)).run t = .ok (~~~0, t) := by
    have hpage : kstacktop - ptsize = pageVa 982016 := by decide
    rw [hpage]
    refine hm.checkVa2pa_outside (fun m hne => h.toBootPool.pteAt_none hne) (by omega) (by omega) ?_
    intro r hr
    refine ⟨(hfits hr).page, ?_⟩
    simp only [kernelRegions, List.mem_cons, List.not_mem_nil, or_false] at hr
    rcases hr with rfl | rfl | rfl | rfl
    · simp only [upagesRegion]
      omega
    · simp only [uenvsRegion]
      omega
    · simp only [stackRegion]
      omega
    · simp only [windowRegion]
      omega
  have hpdes : (Prog.forRange 0 npdentries (checkPde (kva kd))).run t = .ok ((), t) := by
    have hcount : npdentries = 1024 := rfl
    refine Prog.forRange_same fun i _ hi => h.checkPde_ok hm (by omega) ?_
    rwa [hcount, Nat.zero_add] at hi
  have hread : (Prog.read (·.kernPgdir) : Kern UInt32).run t = .ok (kva kd, t) := by
    rw [Prog.run_read, hkern]
  have hread₁ : (Prog.read fun s => UInt32.ofNat s.npages : Kern UInt32).run t =
      .ok (UInt32.ofNat s.npages, t) := by
    rw [Prog.run_read, hnpages]
  have hread₂ : (Prog.read (·.pagesKva) : Kern UInt32).run t = .ok (kva pf, t) := by
    rw [Prog.run_read, hpages]
  have hread₃ : (Prog.read (·.envsKva) : Kern UInt32).run t = .ok (kva ef, t) := by
    rw [Prog.run_read, henvs]
  have hread₄ : (Prog.read (·.image.bootstack) : Kern UInt32).run t =
      .ok (kva s.image.stackFrame, t) := by
    rw [Prog.run_read, himage, hstack]
  unfold checkKernPgdir
  refine (Prog.bind_of_ok hread).trans ?_
  refine (Prog.bind_of_ok hread₁).trans ?_
  refine (Prog.bind_of_ok hread₂).trans ?_
  refine (Prog.bind_of_ok (paddr_kva hpf)).trans ?_
  refine (Prog.bind_of_ok hloop₁).trans ?_
  refine (Prog.bind_of_ok hread₃).trans ?_
  refine (Prog.bind_of_ok (paddr_kva hef)).trans ?_
  refine (Prog.bind_of_ok hloop₂).trans ?_
  refine (Prog.bind_of_ok hloop₃).trans ?_
  refine (Prog.bind_of_ok hread₄).trans ?_
  refine (Prog.bind_of_ok (paddr_kva hbelow)).trans ?_
  refine (Prog.bind_of_ok hloop₄).trans ?_
  refine (Prog.bind_of_ok hguard).trans ?_
  exact (Prog.bind_of_ok (kassert_run rfl _ t)).trans hpdes

/-- Otherwise the last part of the array `pages` is not mapped at `UPAGES`, and the kernel stops. -/
theorem MapEntry.checkKernPgdir_panics (hn : s.npages % 512 ≠ 0) :
    checkKernPgdir.run t = .error (.panic ("assertion failed: " ++
      "check_va2pa(pgdir, UPAGES + i) == PADDR(pages) + i")) := by
  obtain ⟨hkern, hnpages, hpages, -, -⟩ := h.reads hm
  have hread : (Prog.read (·.kernPgdir) : Kern UInt32).run t = .ok (kva kd, t) := by
    rw [Prog.run_read, hkern]
  have hread₁ : (Prog.read fun s => UInt32.ofNat s.npages : Kern UInt32).run t =
      .ok (UInt32.ofNat s.npages, t) := by
    rw [Prog.run_read, hnpages]
  have hread₂ : (Prog.read (·.pagesKva) : Kern UInt32).run t = .ok (kva pf, t) := by
    rw [Prog.run_read, hpages]
  unfold checkKernPgdir
  refine (Prog.bind_of_ok hread).trans ?_
  refine (Prog.bind_of_ok hread₁).trans ?_
  refine (Prog.bind_of_ok hread₂).trans ?_
  refine (Prog.bind_of_ok (paddr_kva h.pf_lt)).trans ?_
  exact Prog.bind_of_error ((h.checkUpages hm _).2 hn)

end Directory

end Jos
