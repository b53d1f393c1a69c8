import Jos.MapRegion
import Jos.Relinking

/-!
`check_page_free_list` passes on a free list without the pages that `page_init` must not hand out,
before the kernel's page tables are there and after. Its effect is the order of the list and 128
bytes in each free page that it can write.
-/

namespace Jos

/-- Only the free pages `l` have changed: their contents, their records and their order. -/
structure Shuffled (l : List Nat) (s s' : Machine) : Prop where
  rest : PagesOnly s s'
  pages : ∀ q, q ∉ l → s'.pages q = s.pages q
  frames : ∀ g, g ∉ l → s'.mem g = s.mem g

variable {s s' s'' : Machine} {l l' : List Nat} {head : Option Nat} {ff fuel n f g p : Nat}
  {c : UInt8}

theorem Shuffled.refl (l : List Nat) (s : Machine) : Shuffled l s s :=
  ⟨.refl s, fun _ _ => rfl, fun _ _ => rfl⟩

theorem Shuffled.trans (h : Shuffled l s s') (h' : Shuffled l' s' s'') (hperm : l'.Perm l) :
    Shuffled l s s'' where
  rest := h.rest.trans h'.rest
  pages q hq := (h'.pages q (hperm.mem_iff.not.mpr hq)).trans (h.pages q hq)
  frames g hg := (h'.frames g (hperm.mem_iff.not.mpr hg)).trans (h.frames g hg)

theorem PagesOnly.npages (h : PagesOnly s s') : s'.npages = s.npages :=
  (congrArg Machine.npages h.eq :)

theorem PagesOnly.nextfree (h : PagesOnly s s') : s'.nextfree = s.nextfree :=
  (congrArg Machine.nextfree h.eq :)

theorem PagesOnly.inWindow (h : PagesOnly s s') {g : Nat} (hg : InWindow s g) : InWindow s' g :=
  (inWindow_congr h.cr3).mpr hg

/-- Filling bytes of one page leaves the others alone. -/
theorem Mem.fill_frame (m : Mem) (c : UInt8) (hn : n ≤ 4096) (hg : g ≠ f) :
    m.fill (f * 4096) n c g = m g := by
  funext j
  have hj := j.isLt
  refine (wordOf_congr fun k hk => ?_).trans (wordOf_byteOf _)
  rw [if_neg (by omega)]

theorem Mem.fill_whole (m : Mem) (c : UInt8) (f : Nat) (j : Fin 1024) :
    m.fill (f * 4096) 4096 c f j = wordOf fun _ => c := by
  have hj := j.isLt
  refine wordOf_congr fun k hk => ?_
  rw [if_pos (by omega)]

theorem kmemset_frame (c : UInt8) (hf : InWindow s f) (hpos : n ≠ 0) (hn : n ≤ 4096) :
    (kmemset (kva f) c n).run s = .ok ((), s.setMem (s.mem.fill (f * 4096) n c)) := by
  have hfit : f * 4096 + n ≤ s.window := by
    unfold InWindow at hf
    omega
  simp [kmemset, kernPa_kva true hf, hpos, hfit]

/-- A loop over the list whose rounds keep `I` and the links. -/
theorem forPages_run {body : Nat → Kern Unit} {I : Machine → Prop} {link : Nat → Option Nat}
    (hchain : Chain link head l) (hfuel : l.length ≤ fuel)
    (hlink : ∀ s, I s → ∀ p ∈ l, (s.pages p).ppLink = link p)
    (hbody : ∀ p ∈ l, ∀ s, I s → ∃ s', (body p).run s = .ok ((), s') ∧ I s') (hs : I s) :
    ∃ s', (forPages body fuel head).run s = .ok ((), s') ∧ I s' := by
  induction l generalizing head fuel s with
  | nil =>
    cases hchain
    cases fuel <;> exact ⟨s, rfl, hs⟩
  | cons p l ih =>
    obtain ⟨rfl, hrest⟩ := hchain
    cases fuel with
    | zero => simp at hfuel
    | succ fuel =>
      obtain ⟨t, hrun, ht⟩ := hbody p List.mem_cons_self s hs
      have hnext := hlink t ht p List.mem_cons_self
      obtain ⟨s', hloop, hs'⟩ := ih hrest (Nat.le_of_succ_le_succ hfuel)
        (fun s hs q hq => hlink s hs q (List.mem_cons_of_mem p hq))
        (fun q hq => hbody q (List.mem_cons_of_mem p hq)) ht
      refine ⟨s', ?_, hs'⟩
      rw [forPages, Prog.bind_of_ok hrun, Prog.run_read_bind, hnext]
      exact hloop

/-- The counting loop of `check_page_alloc` adds up the length of the list. -/
theorem countPages_run (step nfree : Int) (hchain : Chain (fun p => (s.pages p).ppLink) head l)
    (hfuel : l.length ≤ fuel) :
    (countPages step fuel head nfree).run s = .ok (nfree + l.length * step, s) := by
  induction l generalizing head fuel nfree with
  | nil =>
    cases hchain
    cases fuel <;> simp [countPages]
  | cons p l ih =>
    obtain ⟨rfl, hrest⟩ := hchain
    cases fuel with
    | zero => simp at hfuel
    | succ fuel =>
      rw [countPages, Prog.run_read_bind, ih _ hrest (Nat.le_of_succ_le_succ hfuel)]
      simp only [List.length_cons]
      congr 2
      push_cast
      ring

/-- A page that `page_init` may hand out, when the kernel ends at frame `ff`. -/
def Usable (ff p : Nat) : Prop := p ≠ 0 ∧ (p < 160 ∨ ff ≤ p)

theorem kassert_run {c : Prop} [Decidable c] (hc : c) (text : String) (s : Machine) :
    (kassert (decide c) text).run s = .ok ((), s) := by
  simp [kassert, hc]

theorem kassert_fails {c : Prop} [Decidable c] (hc : ¬ c) (text : String) (s : Machine) :
    (kassert (decide c) text).run s = .error (.panic ("assertion failed: " ++ text)) := by
  rw [kassert, decide_eq_false hc]
  rfl

theorem page2pa_lt_extphysmem (hp : p < 65536) : page2pa p < extphysmem ↔ p < 256 := by
  have hext : extphysmem.toNat = 1048576 := rfl
  rw [UInt32.lt_iff_toNat_lt, page2pa_toNat (by omega), hext]
  omega

/-- `check_page_free_list` accepts a page. -/
theorem checkFreePage_run (hp : p < s.npages) (hlt : p < 65536) (husable : Usable ff p)
    (hff : 256 < ff ∧ ff < 65536) : (checkFreePage (kva ff) p).run s = .ok ((), s) := by
  obtain ⟨hzero, hplace⟩ := husable
  have hne {q : Nat} (hq : q < 65536) (hpq : p ≠ q) : page2pa p ≠ page2pa q :=
    fun heq => hpq (page2pa_inj (by omega) (by omega) heq)
  have h0 : page2pa p ≠ 0 := hne (q := 0) (by omega) hzero
  have hio : page2pa p ≠ iophysmem := hne (q := 160) (by omega) (by omega)
  have hlast : page2pa p ≠ extphysmem - pgsize := hne (q := 255) (by omega) (by omega)
  have hext : page2pa p ≠ extphysmem := hne (q := 256) (by omega) (by omega)
  unfold checkFreePage
  rw [Prog.run_read_bind, Prog.bind_of_ok (kassert_run hp _ s),
    Prog.bind_of_ok (kassert_run h0 _ s), Prog.bind_of_ok (kassert_run hio _ s),
    Prog.bind_of_ok (kassert_run hlast _ s), Prog.bind_of_ok (kassert_run hext _ s)]
  by_cases hlow : page2pa p < extphysmem
  · rw [if_pos hlow]
    rfl
  · have habove : kva ff ≤ kva p := by
      rw [page2pa_lt_extphysmem hlt] at hlow
      rw [UInt32.le_iff_toNat_le, kva_toNat hff.2, kva_toNat hlt]
      omega
    rw [if_neg hlow, Prog.bind_of_ok (page2kva_eq hp (by omega))]
    exact kassert_run habove _ s

theorem countFreePages_run (nbase next : Nat) (hff : 256 < ff ∧ ff < 65536)
    (hchain : Chain (fun p => (s.pages p).ppLink) head l) (hfuel : l.length ≤ fuel)
    (hall : ∀ p ∈ l, p < s.npages ∧ p < 65536 ∧ Usable ff p) :
    (countFreePages (kva ff) fuel head nbase next).run s =
      .ok ((nbase + l.countP (· < 256), next + l.countP (256 ≤ ·)), s) := by
  induction l generalizing head fuel nbase next with
  | nil =>
    cases hchain
    cases fuel <;> simp [countFreePages]
  | cons p l ih =>
    obtain ⟨rfl, hrest⟩ := hchain
    obtain ⟨hp, hlt, husable⟩ := hall p List.mem_cons_self
    cases fuel with
    | zero => simp at hfuel
    | succ fuel =>
      have hloop (nbase next : Nat) := ih nbase next hrest (Nat.le_of_succ_le_succ hfuel)
        fun q hq => hall q (List.mem_cons_of_mem p hq)
      rw [countFreePages, Prog.bind_of_ok (checkFreePage_run hp hlt husable hff)]
      simp only [Prog.run_read_bind, page2pa_lt_extphysmem hlt]
      by_cases hlow : p < 256
      · rw [if_pos hlow, hloop]
        have hnot : ¬ 256 ≤ p := by omega
        simp [hlow, hnot, Nat.add_assoc, Nat.add_comm 1]
      · rw [if_neg hlow, hloop]
        have hge : 256 ≤ p := by omega
        simp [hlow, hge, Nat.add_assoc, Nat.add_comm 1]

/-- A free list on which `check_page_free_list` passes; `ff` is the frame of `boot_alloc(0)`. -/
structure FreeListOk (ff : Nat) (l : List Nat) (s : Machine) : Prop where
  npages : s.npages ≤ 65536
  chain : Chain (fun p => (s.pages p).ppLink) s.pageFreeList l
  lt : ∀ p ∈ l, p < s.npages
  usable : ∀ p ∈ l, Usable ff p
  low : ∃ p ∈ l, p < 256
  high : ∃ p ∈ l, 256 ≤ p
  ff_bounds : 256 < ff ∧ ff < 65536
  nextfree : s.nextfree = kva ff

namespace FreeListOk

variable (h : FreeListOk ff l s)

include h

theorem lt_16 (hp : p ∈ l) : p < 65536 := by
  have hlt := h.lt p hp
  have hle := h.npages
  omega

theorem enoughFuel : l.length ≤ s.npages + s.npagesBasemem := by
  have hrange : l ⊆ List.range s.npages := fun p hp => List.mem_range.mpr (h.lt p hp)
  have hle := (List.subperm_of_subset h.chain.nodup hrange).length_le
  rw [List.length_range] at hle
  omega

theorem congr (hperm : l'.Perm l) (hrest : PagesOnly s s')
    (hchain : Chain (fun p => (s'.pages p).ppLink) s'.pageFreeList l') : FreeListOk ff l' s' where
  npages := hrest.npages ▸ h.npages
  chain := hchain
  lt p hp := by
    rw [hrest.npages]
    exact h.lt p (hperm.mem_iff.mp hp)
  usable p hp := h.usable p (hperm.mem_iff.mp hp)
  low := by
    obtain ⟨p, hp, hlow⟩ := h.low
    exact ⟨p, hperm.mem_iff.mpr hp, hlow⟩
  high := by
    obtain ⟨p, hp, hhigh⟩ := h.high
    exact ⟨p, hperm.mem_iff.mpr hp, hhigh⟩
  ff_bounds := h.ff_bounds
  nextfree := hrest.nextfree.trans h.nextfree

/-- The loop that writes into the free pages. -/
theorem scribble {pdxLimit : UInt32}
    (hwin : ∀ p ∈ l, pdx (page2pa p) < pdxLimit → InWindow s p) :
    ∃ s', (forPages (scribbleFreePage pdxLimit) (s.npages + s.npagesBasemem)
        s.pageFreeList).run s = .ok ((), s') ∧
      Shuffled l s s' ∧ s'.pages = s.pages ∧ s'.pageFreeList = s.pageFreeList := by
  refine forPages_run (I := fun t => Shuffled l s t ∧ t.pages = s.pages ∧
    t.pageFreeList = s.pageFreeList) h.chain h.enoughFuel ?_ ?_ ⟨.refl l s, rfl, rfl⟩
  · rintro t ⟨-, hpages, -⟩ p -
    rw [hpages]
  · rintro p hp t ⟨ht, hpages, hhead⟩
    have hlt := h.lt_16 hp
    unfold scribbleFreePage
    by_cases hlimit : pdx (page2pa p) < pdxLimit
    · have hin := ht.rest.inWindow (hwin p hp hlimit)
      have hkva := page2kva_eq (s := t) (by rw [ht.rest.npages]; exact h.lt p hp)
        (by omega : p < 1048576)
      refine ⟨t.setMem (t.mem.fill (p * 4096) 128 0x97), ?_,
        ⟨ht.rest.trans rfl, ht.pages, fun g hg => ?_⟩, hpages, hhead⟩
      · rw [if_pos hlimit, Prog.bind_of_ok hkva, kmemset_frame _ hin (by decide) (by decide)]
      · have hne : g ≠ p := fun heq => hg (heq ▸ hp)
        exact (Mem.fill_frame _ _ (by decide) hne).trans (ht.frames g hg)
    · exact ⟨t, by rw [if_neg hlimit]; rfl, ht, hpages, hhead⟩

/-- The checks and the counts of `check_page_free_list`. -/
theorem counted : ∃ nbase next,
    (countFreePages (kva ff) (s.npages + s.npagesBasemem) s.pageFreeList 0 0).run s =
      .ok ((nbase, next), s) ∧ 0 < nbase ∧ 0 < next := by
  have hrun := countFreePages_run 0 0 h.ff_bounds h.chain h.enoughFuel
    fun p hp => ⟨h.lt p hp, h.lt_16 hp, h.usable p hp⟩
  refine ⟨_, _, hrun, ?_, ?_⟩
  · obtain ⟨p, hp, hlow⟩ := h.low
    rw [Nat.zero_add, List.countP_pos_iff]
    exact ⟨p, hp, by simp [hlow]⟩
  · obtain ⟨p, hp, hhigh⟩ := h.high
    rw [Nat.zero_add, List.countP_pos_iff]
    exact ⟨p, hp, by simp [hhigh]⟩

theorem bootAlloc_zero : (bootAlloc 0).run s = .ok (kva ff, s) := by
  have hne := kva_ne_zero h.ff_bounds.2
  simp [bootAlloc, h.nextfree, hne]

theorem pageFreeList_ne_none : s.pageFreeList ≠ none := by
  intro hnone
  have hchain := h.chain
  rw [hnone] at hchain
  obtain ⟨p, hp, -⟩ := h.low
  rw [Chain.none_iff hchain] at hp
  cases hp

/-- What follows the relinking. -/
theorem checked (pdxLimit : UInt32)
    (hwin : ∀ p ∈ l, pdx (page2pa p) < pdxLimit → InWindow s p) :
    ∃ s', (do
        forPages (scribbleFreePage pdxLimit) (← listFuel) (← Prog.read (·.pageFreeList))
        let firstFreePage ← bootAlloc 0
        let (nbase, next) ← countFreePages firstFreePage (← listFuel)
          (← Prog.read (·.pageFreeList)) 0 0
        kassert (0 < nbase) "nfree_basemem > 0"
        kassert (0 < next) "nfree_extmem > 0" : Kern Unit).run s = .ok ((), s') ∧
      Shuffled l s s' ∧ s'.pages = s.pages ∧ s'.pageFreeList = s.pageFreeList := by
  obtain ⟨s', hrun, hs', hpages, hhead⟩ := h.scribble hwin
  have hchain : Chain (fun p => (s'.pages p).ppLink) s'.pageFreeList l := by
    rw [hpages, hhead]
    exact h.chain
  have hok := h.congr (List.Perm.refl l) hs'.rest hchain
  obtain ⟨nbase, next, hcount, hbase, hnext⟩ := hok.counted
  refine ⟨s', ?_, hs', hpages, hhead⟩
  simp only [listFuel, Prog.run_read_bind]
  rw [Prog.bind_of_ok hrun, Prog.bind_of_ok hok.bootAlloc_zero]
  simp only [Prog.run_read_bind]
  rw [Prog.bind_of_ok hcount]
  simp [kassert, hbase, hnext]

/-- `check_page_free_list(1)`, while `entry_pgdir` is loaded. -/
theorem check_low (hcr3 : s.cr3 = .entry) :
    ∃ s', (checkPageFreeList true).run s = .ok ((), s') ∧ Shuffled l s s' ∧
      (∀ p, (s'.pages p).ppRef = (s.pages p).ppRef) ∧
      Chain (fun p => (s'.pages p).ppLink) s'.pageFreeList
        (l.filter (· < 1024) ++ l.filter (¬ · < 1024)) := by
  have hbelow {p : Nat} (hp : p ∈ l) : Below 1 p ↔ p < 1024 := by
    have hlt := h.lt_16 hp
    rw [below_one_iff, page2pa_toNat (by omega)]
    omega
  have hlow : l.filter (Below 1 ·) = l.filter (· < 1024) :=
    List.filter_congr fun p hp => by simp [hbelow hp]
  have hhigh : l.filter (¬ Below 1 ·) = l.filter (¬ · < 1024) :=
    List.filter_congr fun p hp => by simp [hbelow hp]
  obtain ⟨s₁, hrun₁, hchain₁, pages, hlinks, hs₁⟩ := relinkFreeList_run 1 h.chain h.enoughFuel
  rw [hlow, hhigh] at hchain₁
  have hperm := filter_parts_perm (· < 1024) l
  have hsame : s₁.pages = pages := congrArg Machine.pages hs₁
  have hshuffled₁ : Shuffled l s s₁ := by
    refine ⟨?_, fun q hq => ?_, fun g _ => ?_⟩
    · rw [hs₁]
      rfl
    · rw [hsame]
      exact hlinks.other q hq
    · rw [hs₁]
  have hcr3₁ : s₁.cr3 = .entry := hshuffled₁.rest.cr3.trans hcr3
  have hok := h.congr hperm hshuffled₁.rest hchain₁
  obtain ⟨s', hrun, hs', hpages, hhead⟩ := hok.checked 1 (by
    intro p hp hlimit
    have hone : (1 : UInt32).toNat = 1 := rfl
    have hlt := hok.lt_16 hp
    rw [UInt32.lt_iff_toNat_lt, pdx_toNat, page2pa_toNat (by omega), hone] at hlimit
    exact inWindow_entry hcr3₁ (by omega))
  refine ⟨s', ?_, hshuffled₁.trans hs' hperm, ?_, ?_⟩
  · simp only [checkPageFreeList, Prog.run_read_bind, h.pageFreeList_ne_none, if_false, if_true]
    rw [Prog.bind_of_ok hrun₁]
    exact hrun
  · intro p
    rw [hpages, hsame]
    exact hlinks.ref p
  · rw [hpages, hhead]
    exact hchain₁

/-- `check_page_free_list(0)`, once physical memory is mapped at `KERNBASE`. -/
theorem check_all {pa : UInt32} (hcr3 : s.cr3 = .pgdir pa) :
    ∃ s', (checkPageFreeList false).run s = .ok ((), s') ∧ Shuffled l s s' ∧
      s'.pages = s.pages ∧ s'.pageFreeList = s.pageFreeList := by
  obtain ⟨s', hrun, hs'⟩ := h.checked 1024
    fun p hp _ => inWindow_of_pgdir hcr3 (h.lt_16 hp)
  refine ⟨s', ?_, hs'⟩
  simp only [checkPageFreeList, Prog.run_read_bind, h.pageFreeList_ne_none, if_false,
    Bool.false_eq_true]
  exact hrun

end FreeListOk

end Jos
