import Jos.CheckInstalled
import Jos.CheckKernPgdir

/-!
`mem_init` from power on: with enough memory right above the kernel all of its tests pass, and it
returns exactly when the number of pages is a multiple of 512.
-/

namespace Jos

/-- There are at most 65536 pages, and base memory has from 2 to 160 of them. Above the kernel there
is room for its page tables below 4 MB, which is as far as `entry_pgdir` reaches. -/
structure Roomy (image : Image) (nvram : Nat → UInt8) : Prop where
  npages : (detected nvram).1 ≤ 65536
  basemem : 1 < (detected nvram).2 ∧ (detected nvram).2 ≤ 160
  below : image.firstFree (detected nvram).1 + 69 ≤ 1024
  above : image.firstFree (detected nvram).1 + 69 ≤ (detected nvram).1

/-- 640 KB of base memory, and 16 MB with `ext16` times 64 KB on top of them. -/
def sampleNvram (ext16 : Nat) (r : Nat) : UInt8 :=
  if r = 0x15 then 0x80
  else if r = 0x16 then 0x02
  else if r = 0x34 then UInt8.ofNat ext16
  else if r = 0x35 then UInt8.ofNat (ext16 / 256)
  else 0

theorem sampleNvram_detected : detected (sampleNvram 1792) = (32768, 160) ∧
    detected (sampleNvram 1793) = (32784, 160) := by decide

theorem roomy_of_detected {b : Nat} {nvram : Nat → UInt8} {n : Nat}
    (h : detected nvram = (n, b)) (hb : 1 < b ∧ b ≤ 160)
    (hlo : 500 ≤ n) (hhi : n ≤ 65536) : Roomy sampleImage nvram := by
  have hkd : sampleImage.kdFrame = 280 := by decide
  constructor <;> rw [h]
  · exact hhi
  · exact hb
  · simp only [Image.firstFree, pagesFrames, hkd]
    omega
  · simp only [Image.firstFree, pagesFrames, hkd]
    omega

/-- 128 MB. -/
theorem sampleNvram_roomy : Roomy sampleImage (sampleNvram 1792) :=
  roomy_of_detected sampleNvram_detected.1 (by decide) (by decide) (by decide)

/-- Pages above the kernel that the kernel can write come first, with a page of base memory
somewhere behind them. -/
def Plenty (l : List Nat) : Prop :=
  ∃ a c, l = a ++ c ∧ 69 ≤ a.length ∧ (∀ p ∈ a, 256 ≤ p ∧ p < 1024) ∧ ∃ p ∈ c, p < 256

variable {s s' : Machine} {image : Image} {nvram : Nat → UInt8} {mem : Mem}
  {n nb ff kd p₀ p₁ p₂ : Nat} {l rest new fl : List Nat}

namespace Plenty

theorem three (h : Plenty l) : ∃ p₀ p₁ p₂ rest, l = p₀ :: p₁ :: p₂ :: rest := by
  obtain ⟨a, c, rfl, hlen, -, -⟩ := h
  match a, hlen with
  | p₀ :: p₁ :: p₂ :: a, _ => exact ⟨p₀, p₁, p₂, a ++ c, rfl⟩

/-- The first three pages in reverse. -/
theorem turned (h : Plenty (p₀ :: p₁ :: p₂ :: rest)) : Plenty (p₂ :: p₁ :: p₀ :: rest) := by
  obtain ⟨a, c, hl, hlen, hbounds, hlow⟩ := h
  match a, hlen with
  | q₀ :: q₁ :: q₂ :: a, hlen =>
    simp only [List.cons_append, List.cons.injEq] at hl
    obtain ⟨rfl, rfl, rfl, rfl⟩ := hl
    refine ⟨p₂ :: p₁ :: p₀ :: a, c, rfl, hlen, fun p hp => hbounds p ?_, hlow⟩
    simp only [List.mem_cons] at hp ⊢
    tauto

theorem lowFirst (h : Plenty l) (hcr3 : s.cr3 = .entry) : LowFirst 67 s l := by
  obtain ⟨a, c, rfl, hlen, hbounds, -⟩ := h
  rw [LowFirst, List.length_append]
  refine ⟨by omega, fun g hg => inWindow_entry hcr3 (hbounds g ?_).2⟩
  rw [List.take_append_of_le_length (by omega)] at hg
  exact List.mem_of_mem_take hg

/-- What is left behind the pages that became page tables. -/
theorem left (h : Plenty (new ++ fl)) (hnew : new.length ≤ 67) :
    3 ≤ fl.length ∧ (∃ p ∈ fl, p < 256) ∧ ∃ p ∈ fl, 256 ≤ p := by
  obtain ⟨a, c, hl, hlen, hbounds, p, hp, hlow⟩ := h
  obtain ⟨a', rfl, rfl⟩ : ∃ a', a = new ++ a' ∧ fl = a' ++ c := by
    rcases List.append_eq_append_iff.mp hl with ⟨a', ha, hc⟩ | ⟨c', hnew', hc⟩
    · exact ⟨a', ha, hc⟩
    · rw [hnew', List.length_append] at hnew
      omega
  rw [List.length_append] at hlen
  have hpos := List.length_pos_of_mem hp
  refine ⟨by rw [List.length_append]; omega, ⟨p, List.mem_append_right _ hp, hlow⟩, ?_⟩
  obtain ⟨q, hq⟩ := List.exists_mem_of_length_pos (l := a') (by omega)
  exact ⟨q, List.mem_append_left _ hq, (hbounds q (List.mem_append_right _ hq)).1⟩

end Plenty

/-- Once the pages below 4 MB come first there are enough of them. -/
theorem plenty_initList (hff : 256 < ff) (hbelow : ff + 69 ≤ 1024) (habove : ff + 69 ≤ n)
    (hnb : 1 < nb) (hnb' : nb ≤ 160) :
    Plenty ((initList n nb ff).filter (· < 1024) ++ (initList n nb ff).filter (¬ · < 1024)) := by
  refine ⟨(List.range' ff (n - ff)).reverse.filter (· < 1024),
    (List.range' 1 (nb - 1)).reverse.filter (· < 1024) ++
      (initList n nb ff).filter (¬ · < 1024), ?_, ?_, ?_, 1, ?_, by decide⟩
  · rw [initList, List.filter_append, List.append_assoc]
  · have hsub : List.range' ff 69 ⊆ (List.range' ff (n - ff)).reverse.filter (· < 1024) := by
      intro p hp
      rw [List.mem_range'_1] at hp
      simp only [List.mem_filter, List.mem_reverse, List.mem_range'_1, decide_eq_true_eq]
      omega
    have hle := (List.subperm_of_subset List.nodup_range' hsub).length_le
    rwa [List.length_range'] at hle
  · intro p hp
    simp only [List.mem_filter, List.mem_reverse, List.mem_range'_1, decide_eq_true_eq] at hp
    omega
  · refine List.mem_append_left _ ?_
    simp only [List.mem_filter, List.mem_reverse, List.mem_range'_1, decide_eq_true_eq]
    omega

/-- `page_init` only sets the records and the free list. -/
theorem Prepared.pageInit_records (h : Prepared image nvram mem s) :
    ∃ s', pageInit.run s = .ok ((), s') ∧ PagesOnly s s' ∧ s'.mem = s.mem ∧
      s'.pages = initPages (detected nvram).1 (detected nvram).2
        (image.firstFree (detected nvram).1) ∧
      s'.pageFreeList = initHead (detected nvram).1 (detected nvram).2
        (image.firstFree (detected nvram).1) := by
  have hrest (pages : Nat → PageInfo) (head : Option Nat) :
      PagesOnly s (s.withRecords pages head) := rfl
  have hrun := h.pageInit_run
  rw [h.npages, h.basemem] at hrun
  exact ⟨_, hrun, hrest _ _, Machine.withRecords_mem .., Machine.withRecords_pages ..,
    Machine.withRecords_pageFreeList ..⟩

/-- The state between `page_init` and the calls of `boot_map_region`; the pages `l` are free. -/
structure Testing (image : Image) (nvram : Nat → UInt8) (mem : Mem) (l : List Nat) (s : Machine) :
    Prop where
  pool : BootPool image.kdFrame l s
  free : FreeListOk (image.firstFree (detected nvram).1) l s
  perm : l.Perm (initList (detected nvram).1 (detected nvram).2
    (image.firstFree (detected nvram).1))
  /-- Only free pages have changed since `page_init` was called. -/
  start : ∃ s₀, Prepared image nvram mem s₀ ∧ PagesOnly s₀ s ∧
    (∀ q, q ∉ l → s.pages q = initPages (detected nvram).1 (detected nvram).2
      (image.firstFree (detected nvram).1) q) ∧
    ∀ g, g ∉ l → s.mem g = s₀.mem g

namespace Testing

theorem shuffled {l' : List Nat} (h : Testing image nvram mem l s) (hs : Shuffled l s s')
    (hperm : l'.Perm l) (hpool : BootPool image.kdFrame l' s') : Testing image nvram mem l' s' where
  pool := hpool
  free := h.free.congr hperm hs.rest hpool.chain
  perm := hperm.trans h.perm
  start := by
    obtain ⟨s₀, hs₀, hrest, hpages, hframes⟩ := h.start
    refine ⟨s₀, hs₀, hrest.trans hs.rest, fun q hq => ?_, fun g hg => ?_⟩
    · have hq' := hperm.mem_iff.not.mp hq
      exact (hs.pages q hq').trans (hpages q hq')
    · have hg' := hperm.mem_iff.not.mp hg
      exact (hs.frames g hg').trans (hframes g hg')

section Fields

variable (h : Testing image nvram mem l s)

include h

theorem cr3 : s.cr3 = .entry := by
  obtain ⟨s₀, hs₀, hrest, -⟩ := h.start
  exact hrest.cr3.trans hs₀.cr3

theorem image_eq : s.image = image := by
  obtain ⟨s₀, hs₀, hrest, -⟩ := h.start
  exact (congrArg Machine.image hrest.eq :).trans hs₀.image_eq

theorem npages : s.npages = (detected nvram).1 := by
  obtain ⟨s₀, hs₀, hrest, -⟩ := h.start
  exact hrest.npages.trans hs₀.npages

theorem pagesKva : s.pagesKva = kva (image.kdFrame + 1) := by
  obtain ⟨s₀, hs₀, hrest, -⟩ := h.start
  exact (congrArg Machine.pagesKva hrest.eq :).trans hs₀.pagesKva

theorem envsKva : s.envsKva = kva (image.kdFrame + 1 + pagesFrames (detected nvram).1) := by
  obtain ⟨s₀, hs₀, hrest, -⟩ := h.start
  rw [← hs₀.npages]
  exact (congrArg Machine.envsKva hrest.eq :).trans hs₀.envsKva

end Fields

end Testing

/-- `page_init` leaves a free list that passes the tests. -/
theorem Roomy.testing (h : Roomy image nvram) (mem : Mem) :
    ∃ s₀ s, memInitAreas.run (Machine.atEntry image nvram mem) = .ok ((), s₀) ∧
      pageInit.run s₀ = .ok ((), s) ∧
      Testing image nvram mem (initList (detected nvram).1 (detected nvram).2
        (image.firstFree (detected nvram).1)) s := by
  obtain ⟨hnpages, ⟨hnb, hnb'⟩, hbelow, habove⟩ := h
  obtain ⟨s₀, hrun₀, hs₀⟩ := memInitAreas_run image nvram mem (by omega)
  obtain ⟨s, hrun, hrest, hmem, hpages, hhead⟩ := hs₀.pageInit_records
  have hkd := image.kdFrame_spec.2
  have hff : image.kdFrame + 25 ≤ image.firstFree (detected nvram).1 := by
    unfold Image.firstFree
    omega
  have hn : s.npages = (detected nvram).1 := hrest.npages.trans hs₀.npages
  have hchain : Chain (fun p => (s.pages p).ppLink) s.pageFreeList
      (initList (detected nvram).1 (detected nvram).2
        (image.firstFree (detected nvram).1)) := by
    rw [hpages, hhead]
    exact initPages_chain (by omega) (.inr (by omega))
  have hlt : ∀ p ∈ initList (detected nvram).1 (detected nvram).2
      (image.firstFree (detected nvram).1), p < s.npages := by
    intro p hp
    rw [mem_initList] at hp
    omega
  have hpool : BootPool image.kdFrame (initList (detected nvram).1 (detected nvram).2
      (image.firstFree (detected nvram).1)) s := by
    constructor
    · exact hrest.kernPgdir.trans hs₀.kernPgdir
    · omega
    · exact inWindow_entry (hrest.cr3.trans hs₀.cr3) (by omega)
    · exact hchain
    · exact hlt
    · intro p hp
      rw [mem_initList] at hp
      rw [hpages, initPages_ref (by omega), if_neg (by omega)]
    · rw [mem_initList]
      omega
    · intro d hd
      rw [hmem, hs₀.mem_eq, firstPgdir, Mem.setWord_of_ne _ _ fun _ => hd, Mem.zeroFrame_same]
  refine ⟨s₀, s, hrun₀, hrun, hpool, ⟨hpool.npages, hchain, hlt, ?_, ?_, ?_, by omega, ?_⟩,
    List.Perm.refl _, s₀, hs₀, hrest, fun q _ => congrFun hpages q, fun g _ => congrFun hmem g⟩
  · intro p hp
    rw [mem_initList] at hp
    unfold Usable
    omega
  · exact ⟨1, mem_initList.mpr (.inr (by omega)), by decide⟩
  · exact ⟨image.firstFree (detected nvram).1, mem_initList.mpr (.inl (by omega)), by omega⟩
  · rw [← hs₀.npages]
    exact hrest.nextfree.trans hs₀.nextfree

namespace Testing

/-- The state is ready for the calls of `boot_map_region`. -/
theorem mapEntry (h : Testing image nvram mem l s) (hplenty : Plenty l)
    (hfits : image.firstFree (detected nvram).1 ≤ 1024) :
    MapEntry image.kdFrame (image.kdFrame + 1)
      (image.kdFrame + 1 + pagesFrames (detected nvram).1) l s := by
  unfold Image.firstFree at hfits
  obtain ⟨s₀, hs₀, -, -, hframes⟩ := h.start
  refine ⟨h.pool, hplenty.lowFirst h.cr3, ?_, h.pagesKva, h.envsKva, by omega, by omega⟩
  rw [hframes _ h.pool.notDir, hs₀.mem_eq, firstPgdir, Mem.setWord_same]

/-- What the tests need: `pages` is set, and the first three pages can be written. -/
theorem ready (h : Testing image nvram mem (p₀ :: p₁ :: p₂ :: rest) s)
    (hplenty : Plenty (p₀ :: p₁ :: p₂ :: rest))
    (hfits : image.firstFree (detected nvram).1 ≤ 1024) :
    s.pagesKva ≠ 0 ∧ ∀ p ∈ [p₀, p₁, p₂], InWindow s p := by
  constructor
  · unfold Image.firstFree at hfits
    rw [h.pagesKva]
    exact kva_ne_zero (by omega)
  · intro p hp
    refine (hplenty.lowFirst h.cr3).2 p ?_
    exact List.take_subset_take_left _ (by decide : 3 ≤ 67) hp

/-- `check_page_alloc` and `check_page` pass. -/
theorem checked (h : Testing image nvram mem l s) (hplenty : Plenty l)
    (hfits : image.firstFree (detected nvram).1 ≤ 1024) :
    ∃ s₁ s₂ l', checkPageAlloc.run s = .ok ((), s₁) ∧ checkPage.run s₁ = .ok ((), s₂) ∧
      Testing image nvram mem l' s₂ ∧ Plenty l' := by
  obtain ⟨p₀, p₁, p₂, rest, rfl⟩ := hplenty.three
  obtain ⟨hne, hwin⟩ := h.ready hplenty hfits
  obtain ⟨s₁, hrun₁, hpool₁, hs₁⟩ := h.pool.checkPageAlloc h.cr3 hne hwin
  have h₁ := h.shuffled hs₁ (List.Perm.refl _) hpool₁
  obtain ⟨s₂, hrun₂, hpool₂, hs₂⟩ := hpool₁.checkPage fun p hp => hs₁.rest.inWindow (hwin p hp)
  have hperm : (p₂ :: p₁ :: p₀ :: rest).Perm (p₀ :: p₁ :: p₂ :: rest) :=
    (List.reverse_perm [p₀, p₁, p₂]).append_right rest
  exact ⟨s₁, s₂, _, hrun₁, hrun₂, h₁.shuffled hs₂ hperm hpool₂, hplenty.turned⟩

end Testing

/-- `check_page_free_list(1)` passes and puts the pages below 4 MB first. -/
theorem Roomy.relinked (h : Roomy image nvram) (mem : Mem) :
    ∃ s₀ s₁ s₂ l, memInitAreas.run (Machine.atEntry image nvram mem) = .ok ((), s₀) ∧
      pageInit.run s₀ = .ok ((), s₁) ∧ (checkPageFreeList true).run s₁ = .ok ((), s₂) ∧
      Testing image nvram mem l s₂ ∧ Plenty l := by
  have hkd := image.kdFrame_spec.2
  have hff : 256 < image.firstFree (detected nvram).1 := by
    unfold Image.firstFree
    omega
  obtain ⟨s₀, s₁, hrun₀, hrun₁, h₁⟩ := h.testing mem
  obtain ⟨s₂, hrun₂, hs₂, href, hchain₂⟩ := h₁.free.check_low h₁.cr3
  have hperm := filter_parts_perm (· < 1024) (initList (detected nvram).1 (detected nvram).2
    (image.firstFree (detected nvram).1))
  have hpool₂ := h₁.pool.shuffled hs₂ hperm hchain₂ fun p hp => by
    rw [href]
    exact h₁.pool.ref p (hperm.mem_iff.mp hp)
  exact ⟨s₀, s₁, s₂, _, hrun₀, hrun₁, hrun₂, h₁.shuffled hs₂ hperm hpool₂,
    plenty_initList hff h.below h.above h.basemem.1 h.basemem.2⟩

/-- `mem_init` reaches `check_kern_pgdir`. -/
theorem Roomy.built (h : Roomy image nvram) (mem : Mem) :
    ∃ l s t fl, memInitBuild.run (Machine.atEntry image nvram mem) = .ok ((), t) ∧
      Testing image nvram mem l s ∧ Plenty l ∧
      MapEntry image.kdFrame (image.kdFrame + 1)
        (image.kdFrame + 1 + pagesFrames (detected nvram).1) l s ∧
      RegionsMapped image.kdFrame (kernelRegions s.image s.npages (image.kdFrame + 1)
        (image.kdFrame + 1 + pagesFrames (detected nvram).1)) s l t fl := by
  have hbelow := h.below
  obtain ⟨s₀, s₁, s₂, l₂, hrun₀, hrun₁, hrun₂, h₂, hplenty₂⟩ := h.relinked mem
  obtain ⟨s₃, s₄, l, hrun₃, hrun₄, h₄, hplenty⟩ := h₂.checked hplenty₂ (by omega)
  have hentry := h₄.mapEntry hplenty (by omega)
  obtain ⟨t, fl, hrun, hmapped⟩ := hentry.mapped
  refine ⟨l, s₄, t, fl, ?_, h₄, hplenty, hentry, hmapped⟩
  unfold memInitBuild
  refine (Prog.bind_of_ok hrun₀).trans ?_
  refine (Prog.bind_of_ok hrun₁).trans ?_
  refine (Prog.bind_of_ok hrun₂).trans ?_
  refine (Prog.bind_of_ok hrun₃).trans ?_
  exact (Prog.bind_of_ok hrun₄).trans hrun

/-- The free pages `fl` that are left, once `kern_pgdir` is loaded. -/
structure Loaded (kd ff : Nat) (fl : List Nat) (s : Machine) : Prop where
  free : FreeListOk ff fl s
  ref : ∀ p ∈ fl, (s.pages p).ppRef = 0
  kernPgdir : s.kernPgdir = kva kd
  cr3 : s.cr3 = .pgdir (page2pa kd)
  kd_lt : kd < 65536
  notDir : kd ∉ fl
  empty : ∀ d : Fin 1024, d.val < 2 → s.mem kd d = 0

namespace Loaded

/-- The tests pass and leave the free pages in some order. -/
theorem checked (h : Loaded kd ff fl s) (hlen : 3 ≤ fl.length) :
    ∃ s₁ s₂ fl', (checkPageFreeList false).run s = .ok ((), s₁) ∧
      checkPageInstalledPgdir.run s₁ = .ok ((), s₂) ∧ Shuffled fl s s₂ ∧ fl'.Perm fl ∧
      Chain (fun p => (s₂.pages p).ppLink) s₂.pageFreeList fl' ∧
      ∀ p ∈ fl', (s₂.pages p).ppRef = 0 := by
  obtain ⟨s₁, hrun₁, hs₁, hpages, hhead⟩ := h.free.check_all h.cr3
  have hchain : Chain (fun p => (s₁.pages p).ppLink) s₁.pageFreeList fl := by
    rw [hpages, hhead]
    exact h.free.chain
  have hlt : ∀ p ∈ fl, p < s₁.npages := by
    intro p hp
    rw [hs₁.rest.npages]
    exact h.free.lt p hp
  have hcr3 : s₁.cr3 = .pgdir (page2pa kd) := hs₁.rest.cr3.trans h.cr3
  have hwin {p : Nat} (hp : p ∈ fl) : InWindow s₁ p := inWindow_of_pgdir hcr3 (h.free.lt_16 hp)
  have hempty : ∀ d : Fin 1024, d.val < 2 → s₁.mem kd d = 0 := by
    intro d hd
    rw [hs₁.frames kd h.notDir]
    exact h.empty d hd
  match fl, hlen with
  | q₀ :: q₁ :: q₂ :: rest, _ =>
    have hmem (i : Fin 3) : ![q₀, q₁, q₂] i ∈ q₀ :: q₁ :: q₂ :: rest := by
      fin_cases i <;> simp
    have hnodup := hchain.nodup
    simp only [List.nodup_cons, List.mem_cons, not_or] at hnodup
    obtain ⟨⟨h01, h02, h0⟩, ⟨h12, h1⟩, h2, -⟩ := hnodup
    have hp : TestPages s₁ kd ![q₀, q₁, q₂] rest := by
      refine ⟨?_, fun i => hlt _ (hmem i), fun i => hwin (hmem i),
        hs₁.rest.kernPgdir.trans h.kernPgdir, inWindow_of_pgdir hcr3 h.kd_lt,
        fun i heq => h.notDir (heq ▸ hmem i), ?_, hempty⟩
      · intro i j hij
        fin_cases i <;> fin_cases j <;> simp_all
      · intro i
        fin_cases i <;> simp_all
    have hstart : Sandbox.Holds s₁ kd ![q₀, q₁, q₂] rest
        (Sandbox.pages [0, 1, 2] 0 0 0 none none none) s₁ := by
      refine .start hchain fun i => ?_
      rw [hpages]
      exact h.ref _ (hmem i)
    obtain ⟨s₂, hrun₂, hs₂⟩ := Sandbox.runs_checkInstalled hp hcr3 s₁ hstart
    have hperm : (q₀ :: q₂ :: q₁ :: rest).Perm (q₀ :: q₁ :: q₂ :: rest) :=
      (List.Perm.swap q₁ q₂ rest).cons q₀
    refine ⟨s₁, s₂, q₀ :: q₂ :: q₁ :: rest, hrun₁, hrun₂,
      hs₁.trans (hs₂.shuffled rfl hmem h.notDir) (List.Perm.refl _), hperm, hs₂.chain, ?_⟩
    intro p hp'
    by_cases hthree : ∃ i, p = ![q₀, q₁, q₂] i
    · obtain ⟨i, rfl⟩ := hthree
      rw [hs₂.ref i]
      fin_cases i <;> rfl
    · rw [hs₂.pages p (fun i heq => hthree ⟨i, heq⟩), hpages]
      exact h.ref p (hperm.mem_iff.mp hp')

end Loaded

/-- What `mem_init` leaves: the regions are mapped, `kern_pgdir` is loaded, and the pages `fl` are
free, in some order. -/
structure Done (image : Image) (nvram : Nat → UInt8) (mem : Mem) (l : List Nat) (s t : Machine)
    (fl fl' : List Nat) (u : Machine) : Prop where
  testing : Testing image nvram mem l s
  entry : MapEntry image.kdFrame (image.kdFrame + 1)
    (image.kdFrame + 1 + pagesFrames (detected nvram).1) l s
  mapped : RegionsMapped image.kdFrame (kernelRegions s.image s.npages (image.kdFrame + 1)
    (image.kdFrame + 1 + pagesFrames (detected nvram).1)) s l t fl
  shuffled : Shuffled fl (t.loadPgdir (page2pa image.kdFrame)) u
  perm : fl'.Perm fl
  chain : Chain (fun p => (u.pages p).ppLink) u.pageFreeList fl'
  ref : ∀ p ∈ fl', (u.pages p).ppRef = 0

/-- `kern_pgdir` is loaded with the regions mapped. -/
theorem MapEntry.loaded {pf ef : Nat} {t : Machine} (h : MapEntry kd pf ef l s)
    (hm : RegionsMapped kd (kernelRegions s.image s.npages pf ef) s l t fl)
    (hfree : FreeListOk ff l s) (hplenty : Plenty l) :
    3 ≤ fl.length ∧ Loaded kd ff fl (t.loadPgdir (page2pa kd)) := by
  have hn := h.npages
  have hkd := h.dirWindow.lt
  have hrest := hm.grown.rest
  obtain ⟨new, hnew, hcount⟩ := hm.tables
  have hsub {p : Nat} (hp : p ∈ fl) : p ∈ l := hnew.taken ▸ List.mem_append_right new hp
  rw [hnew.taken] at hplenty
  obtain ⟨hlen, hlow, hhigh⟩ := hplenty.left (hcount.trans (kernelRegions_card hn))
  have hok : FreeListOk ff fl (t.loadPgdir (page2pa kd)) :=
    ⟨hrest.npages ▸ hn, hm.pgdir.chain, fun p hp => (hm.pgdir.free p hp).1,
      fun p hp => hfree.usable p (hsub hp), hlow, hhigh, hfree.ff_bounds,
      hrest.nextfree.trans hfree.nextfree⟩
  refine ⟨hlen, hok, fun p hp => (hm.pgdir.free p hp).2, hrest.kernPgdir.trans h.kernPgdir, rfl,
    hkd, fun hmem => h.notDir (hsub hmem), ?_⟩
  intro d hd
  have huvpt : uvptIdx.val = 957 := rfl
  rw [Machine.loadPgdir_mem]
  refine h.pde_zero hm (fun heq => ?_) fun r hr hmem => ?_
  · rw [heq] at hd
    omega
  · have hcases := h.mem_tables hr hmem
    omega

/-- `mem_init` returns when the number of pages is a multiple of 512. -/
theorem Roomy.done (h : Roomy image nvram) (mem : Mem) (hn : (detected nvram).1 % 512 = 0) :
    ∃ l s t fl fl' u, memInit.run (Machine.atEntry image nvram mem) = .ok ((), u) ∧
      Done image nvram mem l s t fl fl' u := by
  have hkd : image.kdFrame < 65536 := by
    have hbelow := h.below
    unfold Image.firstFree at hbelow
    omega
  have habove := h.above
  obtain ⟨l, s, t, fl, hbuild, htesting, hplenty, hentry, hmapped⟩ := h.built mem
  rw [← htesting.npages] at hn
  have hnpages := htesting.npages
  have hpos : s.npages ≠ 0 := by omega
  have hcheck := hentry.checkKernPgdir_ok hmapped hn hpos
  obtain ⟨hlen, hloaded⟩ := hentry.loaded hmapped htesting.free hplenty
  obtain ⟨s₁, u, fl', hlist, hinstalled, hshuffled, hperm, hchain, href⟩ := hloaded.checked hlen
  have hread : (Prog.read (·.kernPgdir) : Kern UInt32).run t = .ok (kva image.kdFrame, t) := by
    rw [Prog.run_read, (hentry.reads hmapped).1]
  refine ⟨l, s, t, fl, fl', u, ?_, htesting, hentry, hmapped, hshuffled, hperm, hchain, href⟩
  unfold memInit
  refine (Prog.bind_of_ok hbuild).trans ?_
  refine (Prog.bind_of_ok hcheck).trans ?_
  refine (Prog.bind_of_ok hread).trans ?_
  refine (Prog.bind_of_ok (paddr_kva hkd)).trans ?_
  refine (Prog.bind_of_ok (Prog.run_update _ t)).trans ?_
  exact (Prog.bind_of_ok hlist).trans hinstalled

/-- Otherwise `check_kern_pgdir` stops the kernel. -/
theorem Roomy.stops (h : Roomy image nvram) (mem : Mem) (hn : (detected nvram).1 % 512 ≠ 0) :
    memInit.run (Machine.atEntry image nvram mem) = .error (.panic ("assertion failed: " ++
      "check_va2pa(pgdir, UPAGES + i) == PADDR(pages) + i")) := by
  obtain ⟨l, s, t, fl, hbuild, htesting, -, hentry, hmapped⟩ := h.built mem
  rw [← htesting.npages] at hn
  unfold memInit
  refine (Prog.bind_of_ok hbuild).trans ?_
  exact Prog.bind_of_error (hentry.checkKernPgdir_panics hmapped hn)

/-- `check_page_alloc` and `check_page` pass on every pool whose first three pages the kernel can
write. They give back what they take: only free pages have changed. -/
theorem selfTests_pass (h : BootPool kd (p₀ :: p₁ :: p₂ :: rest) s) (hcr3 : s.cr3 = .entry)
    (hpages : s.pagesKva ≠ 0) (hwin : ∀ p ∈ [p₀, p₁, p₂], InWindow s p) :
    ∃ s₁ s₂, checkPageAlloc.run s = .ok ((), s₁) ∧ checkPage.run s₁ = .ok ((), s₂) ∧
      BootPool kd (p₂ :: p₁ :: p₀ :: rest) s₂ ∧ Shuffled (p₀ :: p₁ :: p₂ :: rest) s s₂ := by
  obtain ⟨s₁, hrun₁, hpool₁, hs₁⟩ := h.checkPageAlloc hcr3 hpages hwin
  obtain ⟨s₂, hrun₂, hpool₂, hs₂⟩ := hpool₁.checkPage fun p hp => hs₁.rest.inWindow (hwin p hp)
  exact ⟨s₁, s₂, hrun₁, hrun₂, hpool₂, hs₁.trans hs₂ (List.Perm.refl _)⟩

/-- The tests between `check_page_free_list(1)` and `boot_map_region` with 128 MB. -/
theorem selfTests_pass_sample : ∃ s s₁ s₂, (checkPageFreeList true).run s = .ok ((), s₁) ∧
    (checkPageAlloc >>= fun _ => checkPage).run s₁ = .ok ((), s₂) := by
  obtain ⟨s₀, s, s₁, l, -, -, hrun, htesting, hplenty⟩ :=
    sampleNvram_roomy.relinked fun _ _ => 0
  obtain ⟨p₀, p₁, p₂, rest, rfl⟩ := hplenty.three
  obtain ⟨hne, hwin⟩ := htesting.ready hplenty (by decide)
  obtain ⟨s₂, s₃, hrun₁, hrun₂, -⟩ := selfTests_pass htesting.pool htesting.cr3 hne hwin
  exact ⟨s, s₁, s₃, hrun, (Prog.bind_of_ok hrun₁).trans hrun₂⟩

end Jos
