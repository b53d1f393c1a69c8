import Jos.BootAlloc
import Jos.Lib.Chain
import Jos.PmapRun
import Jos.SelfTest

/-!
The state in which `mem_init` calls `page_init`, and the free list that
`page_init` builds. The kernel image ends below frame `kdFrame`, which holds
`kern_pgdir`; the arrays `pages` and `envs` follow, and `firstFree` is the first
frame after them.
-/

namespace Jos

/-- The frame of `ROUNDUP(end, PGSIZE)`. -/
def Image.kdFrame (image : Image) : Nat := (image.kend.toNat + 4095) / 4096 - 983040

/-- The frames of the array `pages`. -/
def pagesFrames (n : Nat) : Nat := (n * 8 + 4095) / 4096

/-- The frame of `boot_alloc(0)` when `page_init` asks for it. -/
def Image.firstFree (image : Image) (n : Nat) : Nat := image.kdFrame + 1 + pagesFrames n + 24

theorem Image.kdFrame_spec (image : Image) :
    (image.kend.toNat + 4095) / 4096 = image.kdFrame + 983040 ∧ 257 ≤ image.kdFrame := by
  have hgt := image.kend_gt
  have hkb : kernbase.toNat = 4026531840 := rfl
  have hext : extphysmem.toNat = 1048576 := rfl
  rw [hkb, hext] at hgt
  unfold Image.kdFrame
  omega

/-- `npages` and `npages_basemem` as `i386_detect_memory` computes them. -/
def detected (nvram : Nat → UInt8) : Nat × Nat :=
  let read (r : Nat) : Nat := (nvram r).toNat ||| (nvram (r + 1)).toNat <<< 8
  let basemem := read nvramBaselo
  let extmem := read nvramExtlo
  let ext16mem := read nvramExt16lo * 64
  let totalmem :=
    if ext16mem ≠ 0 then 16 * 1024 + ext16mem
    else if extmem ≠ 0 then 1 * 1024 + extmem
    else basemem
  (totalmem / 4, basemem / 4)

theorem i386DetectMemory_run (s : Machine) :
    i386DetectMemory.run s = .ok ((), { s with
      npages := (detected s.nvram).1
      npagesBasemem := (detected s.nvram).2 }) := rfl

theorem nvram_read_lt (nvram : Nat → UInt8) (r : Nat) :
    (nvram r).toNat ||| (nvram (r + 1)).toNat <<< 8 < 65536 := by
  have hlo := (nvram r).toNat_lt
  have hhi := (nvram (r + 1)).toNat_lt
  apply Nat.or_lt_two_pow (n := 16)
  · omega
  · rw [Nat.shiftLeft_eq]
    omega

theorem detected_lt (nvram : Nat → UInt8) :
    (detected nvram).1 < 1052672 ∧ (detected nvram).2 < 16384 := by
  have hbase := nvram_read_lt nvram nvramBaselo
  have hext := nvram_read_lt nvram nvramExtlo
  have hext16 := nvram_read_lt nvram nvramExt16lo
  simp only [detected]
  constructor
  · split
    · omega
    · split
      · omega
      · omega
  · omega

/-- Only `boot_alloc`'s static pointer changed. -/
def NextfreeOnly (s s' : Machine) : Prop := s' = { s with nextfree := s'.nextfree }

theorem bootAlloc_run {s : Machine} {f : Nat} {n : UInt32} (hf : f < 65536)
    (hnext : s.nextfree = kva f ∨ s.nextfree = 0 ∧ roundUp s.image.kend pgsize = kva f) :
    ∃ s', (bootAlloc n).run s = .ok (kva f, s') ∧ NextfreeOnly s s' ∧
      s'.nextfree = if n = 0 then kva f else kva f + roundUp n pgsize := by
  have hbase : s.bootNext = kva f := by
    unfold Machine.bootNext
    rcases hnext with hnext | ⟨hzero, hround⟩
    · rw [hnext, if_neg (kva_ne_zero hf)]
    · rw [if_pos hzero, hround]
  refine ⟨{ s with nextfree := if n = 0 then kva f else kva f + roundUp n pgsize }, ?_, rfl, rfl⟩
  rw [bootAlloc_eq, hbase]

theorem inWindow_entry {s : Machine} {f : Nat} (hcr3 : s.cr3 = .entry) (hf : f < 1024) :
    InWindow s f := by
  simp only [InWindow, Machine.window, hcr3]
  omega

theorem kcheckRange_kva {s : Machine} {f n : Nat} (hcr3 : s.cr3 = .entry)
    (hfit : f * 4096 + n ≤ 4194304) : (kcheckRange (kva f) n).run s = .ok ((), s) := by
  simp only [kcheckRange, Prog.run_read_bind, id]
  by_cases hn : n = 0
  · rw [if_pos hn]
    rfl
  · have hwin : s.window = 4194304 := by simp [Machine.window, hcr3]
    have hpa : s.kernPa true (kva f) = some (f * 4096) := by
      apply kernPa_of_window
      · rw [kva_toNat (by omega)]
      · omega
    simp only [if_neg hn, hpa, hwin, if_pos hfit]
    rfl

theorem roundUp_kend (image : Image) (h : image.kdFrame < 65536) :
    roundUp image.kend pgsize = kva image.kdFrame := by
  have hspec := image.kdFrame_spec
  have hlt := toNat_lt image.kend
  apply UInt32.toNat_inj.mp
  rw [roundUp_pgsize_toNat, kva_toNat h]
  omega

theorem kva_add_roundUp {f : Nat} {n : UInt32} (hn : n.toNat < 16777216)
    (hf : f + (n.toNat + 4095) / 4096 < 65536) :
    kva f + roundUp n pgsize = kva (f + (n.toNat + 4095) / 4096) := by
  apply UInt32.toNat_inj.mp
  rw [UInt32.toNat_add, roundUp_pgsize_toNat, kva_toNat (by omega), kva_toNat hf]
  omega

theorem pagesSize_toNat {n : Nat} (hn : n < 1052672) :
    (UInt32.ofNat n * sizeofPageInfo).toNat = n * 8 := by
  have height : sizeofPageInfo.toNat = 8 := rfl
  rw [UInt32.toNat_mul, height, UInt32.toNat_ofNat']
  omega

theorem envsSize_toNat : (UInt32.ofNat nenv * sizeofEnv).toNat = 98304 := by decide

/-- `boot_alloc` of an area of `size` bytes, from frame `f` on. -/
theorem bootAlloc_kva {s : Machine} {f size : Nat} {n : UInt32}
    (hnext : s.nextfree = kva f ∨ s.nextfree = 0 ∧ roundUp s.image.kend pgsize = kva f)
    (hn : n.toNat = size) (hsize : size < 16777216) (hf : f + (size + 4095) / 4096 < 65536) :
    ∃ s', (bootAlloc n).run s = .ok (kva f, s') ∧ NextfreeOnly s s' ∧
      s'.nextfree = kva (f + (size + 4095) / 4096) := by
  obtain ⟨s', hrun, honly, hnext'⟩ := bootAlloc_run (n := n) (by omega) hnext
  refine ⟨s', hrun, honly, ?_⟩
  rw [hnext']
  by_cases hzero : n = 0
  · have hsize0 : size = 0 := by
      rw [← hn, hzero]
      rfl
    rw [if_pos hzero, hsize0]
    rfl
  · rw [if_neg hzero, ← hn]
    exact kva_add_roundUp (by omega) (by omega)

section Areas

variable {s s' : Machine} {f : Nat} {r : Unit × Machine}

/-- What `kern_pgdir` holds before `page_init`. -/
def firstPgdir (m : Mem) (kd : Nat) : Mem :=
  (m.zeroFrame kd).setWord kd uvptIdx (page2pa kd ||| pteU ||| pteP)

theorem memInitPgdir_run (hcr3 : s.cr3 = .entry) (hnext : s.nextfree = 0)
    (hkend : roundUp s.image.kend pgsize = kva f) (hf : f < 1024) :
    ∃ tlb clock, memInitPgdir.run s = .ok ((), { s with
      kernPgdir := kva f
      nextfree := kva (f + 1)
      mem := firstPgdir s.mem f
      tlb := tlb
      clock := clock }) := by
  obtain ⟨s₁, halloc, honly, hnext₁⟩ : ∃ s', (bootAlloc pgsize).run s = .ok (kva f, s') ∧
      NextfreeOnly s s' ∧ s'.nextfree = kva (f + (4096 + 4095) / 4096) :=
    bootAlloc_kva (.inr ⟨hnext, hkend⟩) rfl (by norm_num) (by omega)
  have huvpt : pdx uvpt = UInt32.ofNat (957 : Fin 1024).val := rfl
  simp only [memInitPgdir]
  rw [Prog.bind_of_ok halloc]
  simp only [Prog.run_update_bind]
  generalize ht : ({ s₁ with kernPgdir := kva f } : Machine) = t
  have hw : InWindow t f := inWindow_entry (by rw [← ht, honly]; exact hcr3) hf
  rw [Prog.bind_of_ok (kmemset_page hw), Prog.bind_of_ok (paddr_kva (by omega)), huvpt,
    entryPtr_ofNat (by omega), kstore_wordPtr _ _ (by exact hw), ← ht, honly, hnext₁]
  exact ⟨_, _, rfl⟩

theorem memInitPages_run (hcr3 : s.cr3 = .entry) (hnext : s.nextfree = kva f)
    (hn : s.npages < 1052672) (hfit : f * 4096 + s.npages * 8 ≤ 4194304) :
    memInitPages.run s = .ok ((), { s with
      pagesKva := kva f
      nextfree := kva (f + pagesFrames s.npages) }) := by
  have hsize := pagesSize_toNat hn
  obtain ⟨s₁, halloc, honly, hnext₁⟩ := bootAlloc_kva (.inl hnext) hsize (by omega) (by omega)
  simp only [memInitPages, Prog.run_read_bind]
  rw [Prog.bind_of_ok halloc]
  simp only [Prog.run_update_bind]
  rw [kcheckRange_kva (by rw [honly]; exact hcr3) (by rw [hsize]; exact hfit), honly, hnext₁]
  rfl

theorem memInitEnvs_run (hcr3 : s.cr3 = .entry) (hnext : s.nextfree = kva f)
    (hfit : f + 24 ≤ 1024) :
    memInitEnvs.run s = .ok ((), { s with
      envsKva := kva f
      nextfree := kva (f + 24) }) := by
  obtain ⟨s₁, halloc, honly, hnext₁⟩ := bootAlloc_kva (.inl hnext) envsSize_toNat (by omega)
    (by omega)
  simp only [memInitEnvs]
  rw [Prog.bind_of_ok halloc]
  simp only [Prog.run_update_bind]
  rw [kcheckRange_kva (by rw [honly]; exact hcr3) (by rw [envsSize_toNat]; omega), honly, hnext₁]

end Areas

/-- The state in which `page_init` is called. -/
structure Prepared (image : Image) (nvram : Nat → UInt8) (mem : Mem) (s : Machine) : Prop where
  image_eq : s.image = image
  npages : s.npages = (detected nvram).1
  basemem : s.npagesBasemem = (detected nvram).2
  fits : image.firstFree s.npages ≤ 1024
  nextfree : s.nextfree = kva (image.firstFree s.npages)
  kernPgdir : s.kernPgdir = kva image.kdFrame
  pagesKva : s.pagesKva = kva (image.kdFrame + 1)
  envsKva : s.envsKva = kva (image.kdFrame + 1 + pagesFrames s.npages)
  pages : s.pages = fun _ => { ppLink := none, ppRef := 0 }
  pageFreeList : s.pageFreeList = none
  envs : s.envs = fun _ => .zero
  envFreeList : s.envFreeList = none
  curenv : s.curenv = none
  cr3 : s.cr3 = .entry
  mem_eq : s.mem = firstPgdir mem image.kdFrame

/-- The kernel's own memory is set up when it ends below 4 MB. -/
theorem memInitAreas_run (image : Image) (nvram : Nat → UInt8) (mem : Mem)
    (hfits : image.firstFree (detected nvram).1 ≤ 1024) :
    ∃ s, memInitAreas.run (Machine.atEntry image nvram mem) = .ok ((), s) ∧
      Prepared image nvram mem s := by
  obtain ⟨hn, -⟩ := detected_lt nvram
  have hfits' := hfits
  unfold Image.firstFree pagesFrames at hfits'
  simp only [memInitAreas]
  rw [Prog.bind_of_ok (i386DetectMemory_run _)]
  generalize hs₁ : ({ Machine.atEntry image nvram mem with
    npages := (detected (Machine.atEntry image nvram mem).nvram).1
    npagesBasemem := (detected (Machine.atEntry image nvram mem).nvram).2 } : Machine) = s₁
  obtain ⟨tlb, clock, hpgdir⟩ := memInitPgdir_run (s := s₁) (f := image.kdFrame)
    (by rw [← hs₁]; rfl) (by rw [← hs₁]; rfl)
    (by rw [← hs₁]; exact roundUp_kend image (by omega)) (by omega)
  generalize hs₂ : ({ s₁ with
      kernPgdir := kva image.kdFrame
      nextfree := kva (image.kdFrame + 1)
      mem := firstPgdir s₁.mem image.kdFrame
      tlb := tlb
      clock := clock } : Machine) = s₂ at hpgdir
  have hn₂ : s₂.npages = (detected nvram).1 := by
    rw [← hs₂, ← hs₁]
    rfl
  have hcr3₂ : s₂.cr3 = .entry := by
    rw [← hs₂, ← hs₁]
    rfl
  rw [Prog.bind_of_ok hpgdir, Prog.bind_of_ok (memInitPages_run hcr3₂ (by rw [← hs₂])
    (by omega) (by omega)), memInitEnvs_run (by exact hcr3₂) rfl
    (by simp only [hn₂, pagesFrames]; omega)]
  refine ⟨_, rfl, ?_⟩
  subst hs₂ hs₁
  constructor
  all_goals first | rfl | exact hfits

/-- The state with other page records and another free list. -/
@[simps -fullyApplied]
def Machine.withRecords (s : Machine) (pages : Nat → PageInfo) (head : Option Nat) : Machine :=
  { s with pages := pages, pageFreeList := head }

/-- The records after the pages from `lo` up to `hi` were put on the free list
with the given head. -/
def pushedPages (lo hi : Nat) (head : Option Nat) (pages : Nat → PageInfo) : Nat → PageInfo :=
  fun i =>
    if lo ≤ i ∧ i < hi then { ppLink := if i = lo then head else some (i - 1), ppRef := 0 }
    else pages i

def pushedHead (lo hi : Nat) (head : Option Nat) : Option Nat :=
  if lo < hi then some (hi - 1) else head

def usedPages (lo hi : Nat) (pages : Nat → PageInfo) : Nat → PageInfo := fun i =>
  if lo ≤ i ∧ i < hi then { pages i with ppRef := 1 } else pages i

section Loops

variable {lo hi i : Nat} {head : Option Nat} {pages : Nat → PageInfo}

theorem pushedPages_empty (h : hi ≤ lo) : pushedPages lo hi head pages = pages := by
  funext q
  exact if_neg (by omega)

theorem pushedHead_empty (h : hi ≤ lo) : pushedHead lo hi head = head := if_neg (by omega)

theorem usedPages_empty (h : hi ≤ lo) : usedPages lo hi pages = pages := by
  funext q
  exact if_neg (by omega)

theorem pushedHead_succ (h : lo ≤ i) : pushedHead lo (i + 1) head = some i :=
  if_pos (by omega)

theorem pushedPages_succ (h : lo ≤ i) : pushedPages lo (i + 1) head pages =
    Function.update (pushedPages lo i head pages) i
      { ppLink := pushedHead lo i head, ppRef := 0 } := by
  funext q
  by_cases hq : q = i
  · subst hq
    have hlink : (if q = lo then head else some (q - 1)) = pushedHead lo q head := by
      by_cases heq : q = lo
      · rw [if_pos heq, pushedHead_empty (by omega)]
      · rw [if_neg heq, pushedHead, if_pos (by omega)]
    rw [Function.update_self, ← hlink]
    exact if_pos (by omega)
  · have hiff : lo ≤ q ∧ q < i + 1 ↔ lo ≤ q ∧ q < i := by omega
    simp only [Function.update_of_ne hq, pushedPages, hiff]

theorem usedPages_succ (h : lo ≤ i) : usedPages lo (i + 1) pages =
    Function.update (usedPages lo i pages) i { usedPages lo i pages i with ppRef := 1 } := by
  funext q
  by_cases hq : q = i
  · subst hq
    have hold : usedPages lo q pages q = pages q := if_neg (by omega)
    rw [Function.update_self, hold]
    exact if_pos (by omega)
  · have hiff : lo ≤ q ∧ q < i + 1 ↔ lo ≤ q ∧ q < i := by omega
    simp only [Function.update_of_ne hq, usedPages, hiff]

theorem pushLoop_run (s : Machine) (pages : Nat → PageInfo) (head : Option Nat) (lo hi : Nat) :
    (Prog.forRange lo (hi - lo) pageInitFree).run (s.withRecords pages head) =
      .ok ((), s.withRecords (pushedPages lo hi head pages) (pushedHead lo hi head)) := by
  by_cases hle : lo ≤ hi
  · obtain ⟨t, hrun, rfl⟩ := Prog.forRange_run
      (fun i t => t = s.withRecords (pushedPages lo i head pages) (pushedHead lo i head))
      pageInitFree (hi - lo) lo
      (by
        rintro i t hlo - rfl
        refine ⟨_, rfl, ?_⟩
        rw [pushedPages_succ hlo, pushedHead_succ hlo]
        rfl)
      (s.withRecords pages head)
      (by rw [pushedPages_empty (le_refl lo), pushedHead_empty (le_refl lo)])
    rw [hrun, Nat.add_sub_cancel' hle]
  · have hzero : hi - lo = 0 := by omega
    rw [hzero, pushedPages_empty (by omega), pushedHead_empty (by omega)]
    rfl

theorem useLoop_run (s : Machine) (pages : Nat → PageInfo) (head : Option Nat) (lo hi : Nat) :
    (Prog.forRange lo (hi - lo) pageInitUsed).run (s.withRecords pages head) =
      .ok ((), s.withRecords (usedPages lo hi pages) head) := by
  by_cases hle : lo ≤ hi
  · obtain ⟨t, hrun, rfl⟩ := Prog.forRange_run
      (fun i t => t = s.withRecords (usedPages lo i pages) head)
      pageInitUsed (hi - lo) lo
      (by
        rintro i t hlo - rfl
        refine ⟨_, rfl, ?_⟩
        rw [usedPages_succ hlo]
        rfl)
      (s.withRecords pages head) (by rw [usedPages_empty (le_refl lo)])
    rw [hrun, Nat.add_sub_cancel' hle]
  · have hzero : hi - lo = 0 := by omega
    rw [hzero, usedPages_empty (by omega)]
    rfl

end Loops

/-- The page records that `page_init` leaves, and the head of the free list. -/
def initPages (n nb ff : Nat) : Nat → PageInfo :=
  pushedPages ff n (pushedHead 1 nb none)
    (usedPages 256 ff (usedPages 160 256 (pushedPages 1 nb none
      (Function.update (fun _ => { ppLink := none, ppRef := 0 }) 0
        { ppLink := none, ppRef := 1 }))))

def initHead (n nb ff : Nat) : Option Nat := pushedHead ff n (pushedHead 1 nb none)

theorem freeTail_run (s : Machine) (ff : Nat) (pages : Nat → PageInfo) (head : Option Nat) :
    (do Prog.forRange ff ((← Prog.read (·.npages)) - ff) pageInitFree : Kern Unit).run
      (s.withRecords pages head) =
      .ok ((), s.withRecords (pushedPages ff s.npages head pages)
        (pushedHead ff s.npages head)) := by
  rw [Prog.run_read_bind]
  exact pushLoop_run ..

theorem pageInit_run {s : Machine} {ff : Nat} (hff : ff < 65536) (hnext : s.nextfree = kva ff)
    (hpages : s.pages = fun _ => { ppLink := none, ppRef := 0 }) (hlist : s.pageFreeList = none) :
    pageInit.run s = .ok ((), s.withRecords (initPages s.npages s.npagesBasemem ff)
      (initHead s.npages s.npagesBasemem ff)) := by
  have hio : (iophysmem / pgsize).toNat = 160 := by decide
  have hext : (extphysmem / pgsize).toNat = 256 := by decide
  have hne : kva ff ≠ 0 := kva_ne_zero (by omega)
  have hquot : (page2pa ff / pgsize).toNat = ff := by
    have hsize : pgsize.toNat = 4096 := rfl
    rw [UInt32.toNat_div, page2pa_toNat (by omega), hsize]
    omega
  have halloc (t : Machine) (ht : t.nextfree = kva ff) : (bootAlloc 0).run t = .ok (kva ff, t) := by
    simp [bootAlloc, ht, hne]
  have hstart : (setPage 0 { ppLink := none, ppRef := 1 }).run s = .ok ((), s.withRecords
      (Function.update (fun _ => { ppLink := none, ppRef := 0 }) 0
        { ppLink := none, ppRef := 1 }) none) := by
    simp [setPage, Machine.withRecords, hpages, hlist]
  simp only [pageInit, hio, hext]
  rw [Prog.bind_of_ok hstart]
  simp only [Prog.run_read_bind, Machine.withRecords_npagesBasemem]
  rw [Prog.bind_of_ok (pushLoop_run ..), Prog.bind_of_ok (useLoop_run ..),
    Prog.bind_of_ok (halloc _ (by exact hnext)), Prog.bind_of_ok (paddr_kva (by omega)), hquot,
    Prog.bind_of_ok (useLoop_run ..), freeTail_run, initPages, initHead]

theorem Prepared.pageInit_run {image : Image} {nvram : Nat → UInt8} {mem : Mem} {s : Machine}
    (h : Prepared image nvram mem s) :
    pageInit.run s = .ok ((), s.withRecords
      (initPages s.npages s.npagesBasemem (image.firstFree s.npages))
      (initHead s.npages s.npagesBasemem (image.firstFree s.npages))) := by
  have hfits := h.fits
  exact Jos.pageInit_run (by omega) h.nextfree h.pages h.pageFreeList

/-- The pages that `page_init` puts on the free list, first page first. -/
def initList (n nb ff : Nat) : List Nat :=
  (List.range' ff (n - ff)).reverse ++ (List.range' 1 (nb - 1)).reverse

theorem mem_initList {n nb ff p : Nat} :
    p ∈ initList n nb ff ↔ (ff ≤ p ∧ p < n) ∨ (1 ≤ p ∧ p < nb) := by
  simp only [initList, List.mem_append, List.mem_reverse, List.mem_range'_1]
  omega

theorem pushed_chain {lo : Nat} {head : Option Nat} {pages : Nat → PageInfo} {l : List Nat}
    (hchain : Chain (fun p => (pages p).ppLink) head l) (n : Nat)
    (hdisj : ∀ p ∈ l, ¬ (lo ≤ p ∧ p < lo + n)) :
    Chain (fun p => (pushedPages lo (lo + n) head pages p).ppLink) (pushedHead lo (lo + n) head)
      ((List.range' lo n).reverse ++ l) := by
  induction n with
  | zero =>
    rw [Nat.add_zero, pushedPages_empty (le_refl lo), pushedHead_empty (le_refl lo)]
    exact hchain
  | succ n ih =>
    have hprev := ih fun p hp hlt => hdisj p hp ⟨hlt.1, by omega⟩
    rw [← Nat.add_assoc, pushedPages_succ (by omega), pushedHead_succ (by omega),
      List.range'_concat, List.reverse_append]
    simp only [Nat.one_mul, List.reverse_singleton, List.singleton_append]
    apply hprev.push
    · intro b hb
      have hne : b ≠ lo + n := by
        rintro rfl
        rcases List.mem_append.mp hb with hb | hb
        · rw [List.mem_reverse, List.mem_range'_1] at hb
          omega
        · exact hdisj _ hb ⟨by omega, by omega⟩
      rw [Function.update_of_ne hne]
    · rw [Function.update_self]

theorem usedPages_link (lo hi : Nat) (pages : Nat → PageInfo) (p : Nat) :
    (usedPages lo hi pages p).ppLink = (pages p).ppLink := by
  unfold usedPages
  split <;> rfl

/-- Unless the two runs of free pages overlap the list is what it should be. -/
theorem initPages_chain {n nb ff : Nat} (hff : 1 ≤ ff) (hok : n ≤ ff ∨ nb ≤ ff) :
    Chain (fun p => (initPages n nb ff p).ppLink) (initHead n nb ff) (initList n nb ff) := by
  have hbase : Chain (fun p => (usedPages 256 ff (usedPages 160 256 (pushedPages 1 nb none
      (Function.update (fun _ => { ppLink := none, ppRef := 0 }) 0
        { ppLink := none, ppRef := 1 }))) p).ppLink) (pushedHead 1 nb none)
      (List.range' 1 (nb - 1)).reverse := by
    simp only [usedPages_link]
    by_cases hnb : 1 ≤ nb
    · have hchain := @pushed_chain 1 none
        (Function.update (fun _ => { ppLink := none, ppRef := 0 }) 0
          { ppLink := none, ppRef := 1 }) [] rfl (nb - 1) (by simp)
      rw [Nat.add_sub_cancel' hnb, List.append_nil] at hchain
      exact hchain
    · have hzero : nb - 1 = 0 := by omega
      rw [hzero, pushedHead_empty (by omega)]
      rfl
  by_cases hn : ff ≤ n
  · have hchain := @pushed_chain ff _ _ _ hbase (n - ff) (by
      intro p hp
      rw [List.mem_reverse, List.mem_range'_1] at hp
      omega)
    rw [Nat.add_sub_cancel' hn] at hchain
    exact hchain
  · have hzero : n - ff = 0 := by omega
    rw [initPages, initHead, initList, hzero, pushedPages_empty (by omega),
      pushedHead_empty (by omega)]
    exact hbase

theorem initPages_ref {n nb ff : Nat} (hff : 256 ≤ ff) (p : Nat) :
    (initPages n nb ff p).ppRef = if p = 0 ∨ (160 ≤ p ∧ p < ff) then 1 else 0 := by
  unfold initPages pushedPages
  split
  · have hno : ¬ (p = 0 ∨ (160 ≤ p ∧ p < ff)) := by omega
    rw [if_neg hno]
  · by_cases hio : 160 ≤ p ∧ p < ff
    · rw [if_pos (.inr hio)]
      by_cases hlow : p < 256
      · have hused : ¬ (256 ≤ p ∧ p < ff) := by omega
        simp only [usedPages, hused, if_false]
        rw [if_pos (by omega)]
      · simp only [usedPages]
        rw [if_pos (by omega)]
    · have hused : ¬ (256 ≤ p ∧ p < ff) := by omega
      have hused' : ¬ (160 ≤ p ∧ p < 256) := by omega
      simp only [usedPages, hused, hused', if_false]
      by_cases hzero : p = 0
      · subst hzero
        simp
      · simp [hzero, hio]
        split <;> rfl

end Jos
