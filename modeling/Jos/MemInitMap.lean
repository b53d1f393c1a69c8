import Jos.BootPool
import Jos.Regions

/-!
The four calls of `boot_map_region` in `mem_init`, and what `check_kern_pgdir` finds after them.
The call for `UPAGES` passes a size that is not rounded to pages, so the last part of the array
`pages` is only mapped when it fills its last page.
-/

namespace Jos

/-- The frame of `bootstack`. -/
def Image.stackFrame (image : Image) : Nat := image.bootstack.toNat / 4096 - 983040

theorem Image.stackFrame_spec (image : Image) :
    image.bootstack = kva image.stackFrame ∧ 256 ≤ image.stackFrame ∧
      image.stackFrame + 8 ≤ 65536 := by
  have haligned := image.bootstack_aligned
  have hge := image.bootstack_ge
  have hle := image.bootstack_le
  have hlt := toNat_lt image.kend
  have hkb : kernbase.toNat = 4026531840 := rfl
  have hext : extphysmem.toNat = 1048576 := rfl
  have hsize : kstksize.toNat = 32768 := rfl
  rw [hkb, hext] at hge
  rw [hsize] at hle
  clear hkb hext hsize
  have hframe : image.stackFrame < 65536 := by
    unfold Image.stackFrame
    omega
  have hval : image.bootstack.toNat = 4026531840 + image.stackFrame * 4096 := by
    unfold Image.stackFrame
    omega
  refine ⟨UInt32.toNat_inj.mp (hval.trans (kva_toNat hframe).symm), ?_, ?_⟩
  · unfold Image.stackFrame
    omega
  · unfold Image.stackFrame
    omega

/-- The array `pages`, as far as whole pages of it are mapped. -/
def upagesRegion (n pf : Nat) : Region := ⟨978944, pf, n * 8 / 4096, pteU ||| pteP⟩

def uenvsRegion (ef : Nat) : Region := ⟨977920, ef, 24, pteU ||| pteP⟩

def stackRegion (image : Image) : Region := ⟨983032, image.stackFrame, 8, pteW ||| pteP⟩

/-- Physical memory at `KERNBASE`. -/
def windowRegion : Region := ⟨983040, 0, 65536, pteW ||| pteP⟩

/-- What `mem_init` maps, with the arrays in the frames from `pf` and from `ef` on. -/
def kernelRegions (image : Image) (n pf ef : Nat) : List Region :=
  [upagesRegion n pf, uenvsRegion ef, stackRegion image, windowRegion]

-- The calls of `mem_init` are for these regions.

theorem upages_call {n pf : Nat} (kd : Nat) (hn : n ≤ 65536) (hpf : pf < 65536) :
    bootMapRegion (kva kd) upages (UInt32.ofNat n * sizeofPageInfo) (page2pa pf)
      (pteU ||| pteP) = (upagesRegion n pf).map kd := by
  have hva : upages = pageVa 978944 := by decide
  refine Region.map_eq kd hva ?_ (pageVa_eq_page2pa (by omega)).symm rfl
  rw [pgnum_toNat, pagesSize_toNat (by omega)]
  rfl

theorem uenvs_call {ef : Nat} (kd : Nat) (hef : ef < 65536) :
    bootMapRegion (kva kd) uenvs (roundUp (UInt32.ofNat nenv * sizeofEnv) pgsize) (page2pa ef)
      (pteU ||| pteP) = (uenvsRegion ef).map kd := by
  have hva : uenvs = pageVa 977920 := by decide
  have hsize : (pgnum (roundUp (UInt32.ofNat nenv * sizeofEnv) pgsize)).toNat = 24 := by decide
  exact Region.map_eq kd hva hsize (pageVa_eq_page2pa (by omega)).symm rfl

theorem stack_call (kd : Nat) (image : Image) :
    bootMapRegion (kva kd) (kstacktop - kstksize) kstksize (page2pa image.stackFrame)
      (pteW ||| pteP) = (stackRegion image).map kd := by
  have hva : kstacktop - kstksize = pageVa 983032 := by decide
  have hsize : (pgnum kstksize).toNat = 8 := by decide
  have hframe := image.stackFrame_spec.2.2
  exact Region.map_eq kd hva hsize (pageVa_eq_page2pa (by omega)).symm rfl

theorem window_call (kd : Nat) :
    bootMapRegion (kva kd) kernbase (roundUp (0xFFFFFFFF - kernbase) pgsize) 0
      (pteW ||| pteP) = windowRegion.map kd :=
  Region.map_eq kd (by decide) (by decide) (by decide) rfl

variable {image : Image} {s s' : Machine} {kd n pf ef : Nat} {l fl' : List Nat} {r : Region}

/-- A region that stays clear of the window at `UVPT`. -/
theorem Region.fits_of_clear (hpage : r.page + r.count ≤ 1048576)
    (hframe : r.frame + r.count ≤ 1048576)
    (hclear : r.page + r.count ≤ 957 * 1024 ∨ 958 * 1024 ≤ r.page) (hperm : r.perm.toNat < 4096) :
    r.Fits := by
  refine ⟨hpage, hframe, fun hmem => ?_, hperm⟩
  obtain ⟨i, hi, hval⟩ := (Region.mem_tables hpage).mp hmem
  have huvpt : uvptIdx.val = 957 := rfl
  omega

theorem kernelRegions_fits (hn : n ≤ 65536) (hpf : pf < 65536) (hef : ef < 65536)
    (hr : r ∈ kernelRegions image n pf ef) : r.Fits := by
  have hstack := image.stackFrame_spec
  simp only [kernelRegions, List.mem_cons, List.not_mem_nil, or_false] at hr
  have hu : (pteU ||| pteP).toNat < 4096 := by decide
  have hw : (pteW ||| pteP).toNat < 4096 := by decide
  rcases hr with rfl | rfl | rfl | rfl
  · apply Region.fits_of_clear <;> simp only [upagesRegion] <;> omega
  · apply Region.fits_of_clear <;> simp only [uenvsRegion] <;> omega
  · apply Region.fits_of_clear <;> simp only [stackRegion] <;> omega
  · apply Region.fits_of_clear <;> simp only [windowRegion] <;> omega

theorem upagesRegion_card (hn : n ≤ 65536) : (upagesRegion n pf).tables.card ≤ 1 := by
  refine Region.tables_card_le 956 957 ?_ ?_ ?_ <;> simp only [upagesRegion] <;>
    omega

theorem uenvsRegion_card : (uenvsRegion ef).tables.card ≤ 1 := by
  refine Region.tables_card_le 955 956 ?_ ?_ ?_ <;> simp only [uenvsRegion] <;>
    omega

theorem stackRegion_card : (stackRegion image).tables.card ≤ 1 := by
  refine Region.tables_card_le 959 960 ?_ ?_ ?_ <;> simp only [stackRegion] <;>
    omega

theorem windowRegion_card : windowRegion.tables.card ≤ 64 := by
  refine Region.tables_card_le 960 1024 ?_ ?_ ?_ <;> simp only [windowRegion] <;>
    omega

theorem kernelRegions_card (hn : n ≤ 65536) :
    ((kernelRegions image n pf ef).map fun r => r.tables.card).sum ≤ 67 := by
  have h₁ : (upagesRegion n pf).tables.card ≤ 1 := upagesRegion_card hn
  have h₂ : (uenvsRegion ef).tables.card ≤ 1 := uenvsRegion_card
  have h₃ : (stackRegion image).tables.card ≤ 1 := stackRegion_card
  have h₄ := windowRegion_card
  have hsum (f : Region → Nat) (a b c d : Region) :
      ([a, b, c, d].map f).sum = f a + f b + f c + f d := by
    simp [Nat.add_assoc]
  rw [kernelRegions, hsum]
  omega

/-- The state in which `mem_init` maps the kernel: the free pages `l`, the first of them below
4 MB, and nothing mapped yet. -/
structure MapEntry (kd pf ef : Nat) (l : List Nat) (s : Machine) : Prop
    extends BootPool kd l s where
  low : LowFirst 67 s l
  self : s.mem kd uvptIdx = page2pa kd ||| pteU ||| pteP
  pagesKva : s.pagesKva = kva pf
  envsKva : s.envsKva = kva ef
  pf_lt : pf < 65536
  ef_lt : ef < 65536

/-- Without page tables there are no translations. -/
theorem BootPool.pgdir (h : BootPool kd l s) : Pgdir s kd l := by
  have hnone {d : Fin 1024} {g : Nat} (hd : d ≠ uvptIdx)
      (hg : entryFrame (s.mem kd d) = some g) : False := by
    rw [h.empty d hd, entryFrame_zero] at hg
    cases hg
  have hnpages := h.npages
  refine ⟨by omega, h.chain, fun p hp => ⟨h.lt p hp, h.ref p hp⟩, h.dirWindow, h.notDir, ?_, ?_⟩
  · exact ⟨fun d g hd hg => (hnone hd hg).elim, fun d _ g hd _ hg => (hnone hd hg).elim⟩
  · exact fun d g hd hg => (hnone hd hg).elim

theorem BootPool.pteAt_none (h : BootPool kd l s) {m : Vpn} (hm : m.1 ≠ uvptIdx) :
    pteAt s.mem kd m = none := by
  refine pteAt_of_no_table ?_
  rw [h.empty m.1 hm]
  exact entryFrame_zero

/-- `mem_init` maps the four regions, with 67 page tables at most. -/
theorem MapEntry.mapped (h : MapEntry kd pf ef l s) :
    ∃ s' fl', memInitMap.run s = .ok ((), s') ∧
      RegionsMapped kd (kernelRegions s.image s.npages pf ef) s l s' fl' := by
  have hn := h.npages
  have hpf := h.pf_lt
  have hef := h.ef_lt
  obtain ⟨hstack, -, hstackEnd⟩ := s.image.stackFrame_spec
  have hfits {r : Region} (hr : r ∈ kernelRegions s.image s.npages pf ef) : r.Fits :=
    kernelRegions_fits hn hpf hef hr
  have h₀ := h.pgdir
  have hmem : ∀ r ∈ [upagesRegion s.npages pf, uenvsRegion ef, stackRegion s.image], r.Fits := by
    intro r hr
    refine hfits ?_
    simp only [List.mem_cons, List.not_mem_nil, or_false] at hr
    rcases hr with rfl | rfl | rfl <;> simp [kernelRegions]
  obtain ⟨s₁, fl₁, hrun₁, h₁, hlow₁⟩ := RegionsMapped.more (c := 1) (m := 66) h₀ (.nil h₀)
    (by simp) (hmem (upagesRegion s.npages pf) (by simp)) (by simp)
    (upagesRegion_card hn) h.low
  obtain ⟨s₂, fl₂, hrun₂, h₂, hlow₂⟩ := h₁.more (r := uenvsRegion ef) (c := 1) (m := 65) h₀
    (fun r hr => hmem r (by
      obtain rfl := List.mem_singleton.mp hr
      exact List.mem_cons_self)) (hmem _ (by simp))
    (by
      intro r hr
      obtain rfl := List.mem_singleton.mp hr
      apply Region.apart_of_le <;> simp only [upagesRegion, uenvsRegion] <;> omega)
    uenvsRegion_card hlow₁
  obtain ⟨s₃, fl₃, hrun₃, h₃, hlow₃⟩ := h₂.more (r := stackRegion s.image) (c := 1) (m := 64) h₀
    (fun r hr => hmem r (by
      simp only [List.nil_append, List.cons_append, List.mem_cons, List.not_mem_nil,
        or_false] at hr ⊢
      exact hr.imp_right .inl)) (hmem _ (by simp))
    (by
      intro r hr
      simp only [List.nil_append, List.cons_append, List.mem_cons, List.not_mem_nil,
        or_false] at hr
      rcases hr with rfl | rfl
      · apply Region.apart_of_le <;> simp only [upagesRegion, stackRegion] <;> omega
      · apply Region.apart_of_le <;> simp only [uenvsRegion, stackRegion] <;> omega)
    stackRegion_card hlow₂
  obtain ⟨s₄, fl₄, hrun₄, h₄, -⟩ := h₃.more (r := windowRegion) (c := 64) (m := 0) h₀
    (fun r hr => hmem r hr) (hfits (by simp [kernelRegions]))
    (by
      intro r hr
      simp only [List.nil_append, List.cons_append, List.mem_cons, List.not_mem_nil,
        or_false] at hr
      rcases hr with rfl | rfl | rfl
      · apply Region.apart_of_le <;> simp only [upagesRegion, windowRegion] <;> omega
      · apply Region.apart_of_le <;> simp only [uenvsRegion, windowRegion] <;> omega
      · apply Region.apart_of_le <;> simp only [stackRegion, windowRegion] <;> omega)
    windowRegion_card hlow₃
  refine ⟨s₄, fl₄, ?_, h₄⟩
  have henvsKva : s₁.envsKva = kva ef :=
    (congrArg Machine.envsKva h₁.grown.rest.eq :).trans h.envsKva
  have himage : s₂.image = s.image := (congrArg Machine.image h₂.grown.rest.eq :)
  have hbelow : s.image.stackFrame < 65536 := by omega
  have hwindow := (congrArg (fun x => x.run s₃) (window_call kd)).trans hrun₄
  have hstk := (congrArg (fun x => x.run s₂) (stack_call kd s.image)).trans hrun₃
  have huenvs := (congrArg (fun x => x.run s₁) (uenvs_call kd hef)).trans hrun₂
  have hupages := (congrArg (fun x => x.run s) (upages_call kd hn hpf)).trans hrun₁
  have hread : (Prog.read (·.kernPgdir) : Kern UInt32).run s = .ok (kva kd, s) := by
    rw [Prog.run_read, h.kernPgdir]
  have hread₁ : (Prog.read (·.pagesKva) : Kern UInt32).run s = .ok (kva pf, s) := by
    rw [Prog.run_read, h.pagesKva]
  have hread₂ : (Prog.read (·.envsKva) : Kern UInt32).run s₁ = .ok (kva ef, s₁) := by
    rw [Prog.run_read, henvsKva]
  have hread₃ : (Prog.read (·.image.bootstack) : Kern UInt32).run s₂ =
      .ok (kva s.image.stackFrame, s₂) := by
    rw [Prog.run_read, himage, hstack]
  unfold memInitMap
  refine (Prog.bind_of_ok hread).trans ?_
  refine (Prog.bind_of_ok (Prog.run_read _ s)).trans ?_
  refine (Prog.bind_of_ok hread₁).trans ?_
  refine (Prog.bind_of_ok (paddr_kva hpf)).trans ?_
  refine (Prog.bind_of_ok hupages).trans ?_
  refine (Prog.bind_of_ok hread₂).trans ?_
  refine (Prog.bind_of_ok (paddr_kva hef)).trans ?_
  refine (Prog.bind_of_ok huenvs).trans ?_
  refine (Prog.bind_of_ok hread₃).trans ?_
  refine (Prog.bind_of_ok (paddr_kva hbelow)).trans ?_
  exact (Prog.bind_of_ok hstk).trans hwindow

end Jos
