import Jos.RegionAlloc

/-!
The pages that one environment is given. While a program is loaded its environment
takes pages from the free list, for page tables and for what it maps, and may give some
of them back. Nothing that belongs to anybody else changes.
-/

namespace Jos

/-- Between `s₀` and `s` the environment `e` with the page directory `f` has had its pages
from the list `all`, which was the free list in `s₀`, and nothing else has changed. -/
structure GivenPages (L : Layout) (e : Fin nenv) (f : Nat) (all : List Nat) (s₀ s : Machine)
    (fl : List Nat) : Prop where
  start : KInv L all s₀
  inv : KInv L fl s
  dir : dirFrame s₀.envs e = some f
  rest : PagesOnly s₀ s
  others : ∀ x : Slot, x.env ≠ e → own s.mem s.envs x = own s₀.mem s₀.envs x
  given : ∀ x p, x.env = e → x ≠ .dir e → own s.mem s.envs x = some p →
    p ∈ all ∧ Alone (own s.mem s.envs) x
  flags : ∀ (n : Vpn) v, n.1.val < userPdes → pteAt s.mem f n = some v →
    ∃ p < 65536, v = newPte p regionPerm
  free : ∀ p ∈ fl, p ∈ all
  /-- No page is lost. -/
  kept : ∀ p ∈ all, p ∈ fl ∨ ∃ x : Slot, x.env = e ∧ x ≠ .dir e ∧ own s.mem s.envs x = some p
  frame : ∀ g, g ∉ all → g ≠ f → s.mem g = s₀.mem g
  pages : ∀ q, q ∉ all → s.pages q = s₀.pages q

/-- The page directory `f` refers to the page table `q`. -/
def TableOf (m : Mem) (f q : Nat) : Prop :=
  ∃ d : Fin 1024, d.val < userPdes ∧ entryFrame (m f d) = some q

/-- No page is mapped twice below `UTOP`, and none that is mapped is one of the tables. -/
structure PagesApart (m : Mem) (f : Nat) : Prop where
  dir : ∀ (i : Vpn) v, i.1.val < userPdes → pteAt m f i = some v → frameOf v ≠ f
  table : ∀ (i : Vpn) v, i.1.val < userPdes → pteAt m f i = some v → ¬ TableOf m f (frameOf v)
  once : ∀ (i j : Vpn) v w, i.1.val < userPdes → j.1.val < userPdes → pteAt m f i = some v →
    pteAt m f j = some w → frameOf v = frameOf w → i = j

/-- Nothing below `UTOP` leads to the page `q`, nor is it one of the tables. -/
structure Untouched (m : Mem) (f q : Nat) : Prop where
  dir : q ≠ f
  table : ¬ TableOf m f q
  page : ∀ (i : Vpn) v, i.1.val < userPdes → pteAt m f i = some v → frameOf v ≠ q

/-- `region_alloc` has mapped fresh pages from page number `k` on, `n` of them. -/
structure PagesGiven (f k n : Nat) (s s' : Machine) : Prop where
  here : ∀ i < n, ∃ p < 65536, pteAt s'.mem f (vpn (pageVa (k + i))) = some (newPte p regionPerm)
  other : ∀ m : Vpn, m.1.val < userPdes → (∀ i < n, m ≠ vpn (pageVa (k + i))) →
    pteAt s'.mem f m = pteAt s.mem f m
  /-- What else is mapped keeps its contents. -/
  data : ∀ m : Vpn, m.1.val < userPdes → (∀ i < n, m ≠ vpn (pageVa (k + i))) →
    ∀ v, pteAt s.mem f m = some v → s'.mem (frameOf v) = s.mem (frameOf v)
  tables : ∀ q, TableOf s.mem f q → TableOf s'.mem f q
  /-- Only tables are written, not even the fresh pages. -/
  frame : ∀ q, q ≠ f → ¬ TableOf s'.mem f q → s'.mem q = s.mem q
  apart : PagesApart s'.mem f

variable {L : Layout} {e : Fin nenv} {f k n p : Nat} {all fl fl₁ : List Nat} {s₀ s s₁ s' : Machine}
  {va : UInt32}

/-- Both references that `page_insert` of a free page adds are the only ones to their
pages. -/
theorem alone_table {own own' : Slot → Option Nat} {x d : Slot} {g : Nat}
    (hown : own' = Function.update (Function.update own d (some g)) x (some p)) (hxd : d ≠ x)
    (hgp : g ≠ p) (hg : (own d = some g ∧ Alone own d) ∨ ∀ z, own z ≠ some g) : Alone own' d := by
  intro y q hd hy
  rw [hown, Function.update_of_ne hxd, Function.update_self] at hd
  obtain rfl := Option.some.inj hd
  by_contra hyd
  rw [hown] at hy
  by_cases hyx : y = x
  · rw [hyx, Function.update_self] at hy
    exact hgp (Option.some.inj hy).symm
  · rw [Function.update_of_ne hyx, Function.update_of_ne hyd] at hy
    rcases hg with ⟨hgd, halone⟩ | hfree
    · exact hyd (halone y g hgd hy)
    · exact hfree y hy

/-- The first page of the free list and the page table `g` that `page_insert` used. -/
structure RoundRun (L : Layout) (e : Fin nenv) (f k p g : Nat) (tail : List Nat) (s s₁ : Machine)
    (fl₁ : List Nat) : Prop where
  before : KInv L (p :: tail) s
  inv : KInv L fl₁ s₁
  rewritten : ∃ s₂ fl₂, Rewritten L e f p (pageVa k) regionPerm (s.takePage p) tail g s₂ fl₂ s₁ fl₁
  added : PagesAdded L e f k 1 s s₁

/-- A round runs out of pages, or it goes through. -/
theorem KInv.regionRound_run (h : KInv L fl s) (hf : dirFrame s.envs e = some f)
    (hk : k < 977920) :
    ((fl = [] ∨ entryFrame (s.mem f (pdxIdx (pageVa k))) = none ∧ fl.length = 1) ∧
      ∀ n, (regionAllocLoop e (n + 1) (pageVa k)).run s = .error (.panic "region_alloc: %e")) ∨
    ∃ p g tail s₁ fl₁, fl = p :: tail ∧ RoundRun L e f k p g tail s s₁ fl₁ ∧
      ∀ n, (regionAllocLoop e (n + 1) (pageVa k)).run s =
        (regionAllocLoop e n (pageVa (k + 1))).run s₁ := by
  cases fl with
  | nil =>
    left
    refine ⟨.inl rfl, fun n => ?_⟩
    rw [regionAllocLoop, Prog.bind_of_ok (pageAlloc_none 0 h.head_eq)]
    rfl
  | cons p tail =>
    have hmem : p ∈ p :: tail := List.mem_cons_self
    have hd := pdxIdx_lt_userPdes (pageVa_lt hk)
    have hpgdir : (s.takePage p).envs e = s.envs e := rfl
    have hround (n : Nat) : (regionAllocLoop e (n + 1) (pageVa k)).run s =
        (do
          let r ← Jos.pageInsert (kva f) p (pageVa k) regionPerm
          if r < 0 then panic "region_alloc: %e"
          else regionAllocLoop e n (pageVa k + pgsize)).run (s.takePage p) := by
      rw [regionAllocLoop, Prog.bind_of_ok (pageAlloc_some h.head_eq)]
      simp only [Prog.run_read_bind, hpgdir, h.dir_kva hf]
      rfl
    rcases h.takePage.pageInsert_rewritten hf hd (h.free_managed hmem) h.pool.chain.not_mem_tail
      (by decide : regionPerm.toNat < 4096) with ⟨hnil, hnone, hrun⟩ |
      ⟨g, s₂, fl₂, s₁, fl₁, hrun, hw, hinv⟩
    · left
      refine ⟨.inr ⟨?_, by simp [hnil]⟩, fun n => ?_⟩
      · exact (pdeFrame_of_dir hf hd).symm.trans hnone
      · rw [hround, Prog.bind_of_ok hrun, if_pos (by decide)]
        rfl
    · right
      have hsteps (n : Nat) : (regionAllocLoop e (n + 1) (pageVa k)).run s =
          (regionAllocLoop e n (pageVa (k + 1))).run s₁ := by
        rw [hround, Prog.bind_of_ok hrun, if_neg (by decide), pageVa_succ]
      refine ⟨p, g, tail, s₁, fl₁, rfl, ⟨h, hinv fun _ => by simp, ⟨s₂, fl₂, hw⟩, ?_⟩, hsteps⟩
      rcases h.regionRound hf hk with ⟨-, hpanic⟩ | ⟨s₁', hround', hadded⟩
      · obtain ⟨msg, hmsg⟩ := hpanic 0
        rw [hsteps 0] at hmsg
        cases hmsg
      · have hsame := (hsteps 0).symm.trans (hround' 0)
        cases hsame
        exact hadded

/-- A page with a single reference has the count 1. -/
theorem KInv.ref_one (h : KInv L fl s) {x : Slot} (hx : own s.mem s.envs x = some p)
    (halone : Alone (own s.mem s.envs) x) (hkernel : ¬ L.KTable p) :
    (s.pages p).ppRef.toNat = 1 := by
  have hcnt := h.pool.counted p (h.owned_managed hx)
  have hbase : L.base p = 0 := Layout.base_eq_zero.mpr fun hkpt => hkernel (.inr hkpt)
  have hrefs : refs (own s.mem s.envs) p = 1 := by
    refine Finset.card_eq_one.mpr ⟨x, ?_⟩
    ext y
    simp only [Finset.mem_filter, Finset.mem_univ, true_and, Finset.mem_singleton]
    refine ⟨fun hy => halone y p hx hy, ?_⟩
    rintro rfl
    exact hx
  omega

namespace RoundRun

variable {tail : List Nat} {g : Nat}

/-- The round adds the page table `g` and the page `p` to what `e` refers to. -/
theorem own_eq (h : RoundRun L e f k p g tail s s₁ fl₁) :
    own s₁.mem s₁.envs = Function.update
      (Function.update (own s.mem s.envs) (.pde e (pdxIdx (pageVa k))) (some g))
      (pageSlot e k) (some p) := by
  obtain ⟨s₂, fl₂, hw⟩ := h.rewritten
  have hp := h.before.good.lt (h.before.free_managed List.mem_cons_self)
  exact hw.own_eq (by omega) (by decide)

theorem table_before (h : RoundRun L e f k p g tail s s₁ fl₁) :
    own s.mem s.envs (.pde e (pdxIdx (pageVa k))) = some g ∨
      (own s.mem s.envs (.pde e (pdxIdx (pageVa k))) = none ∧ g ∈ tail) := by
  obtain ⟨s₂, fl₂, hw⟩ := h.rewritten
  exact hw.walked.table_before

theorem pagesOnly (h : RoundRun L e f k p g tail s s₁ fl₁) : PagesOnly s s₁ := by
  obtain ⟨s₂, fl₂, hw⟩ := h.rewritten
  have htake : PagesOnly s (s.takePage p) := rfl
  exact htake.trans (hw.walked.pagesOnly.trans hw.rest)

theorem page_unowned (h : RoundRun L e f k p g tail s s₁ fl₁) (x : Slot) :
    own s.mem s.envs x ≠ some p := h.before.free_not_owned List.mem_cons_self x

theorem table_unowned (h : RoundRun L e f k p g tail s s₁ fl₁) :
    own s.mem s.envs (.pde e (pdxIdx (pageVa k))) = some g ∨
      own s.mem s.envs (.pde e (pdxIdx (pageVa k))) = none ∧ ∀ z, own s.mem s.envs z ≠ some g :=
  h.table_before.imp_right fun hnew =>
    ⟨hnew.1, h.before.free_not_owned (List.mem_cons_of_mem p hnew.2)⟩

theorem table_ne_page (h : RoundRun L e f k p g tail s s₁ fl₁) : g ≠ p := by
  rintro rfl
  rcases h.table_before with hg | ⟨-, hmem⟩
  · exact h.page_unowned _ hg
  · exact h.before.pool.chain.not_mem_tail hmem

/-- Only the page directory and the page table are written. -/
theorem frame (h : RoundRun L e f k p g tail s s₁ fl₁) {q : Nat} (hqf : q ≠ f) (hqg : q ≠ g) :
    s₁.mem q = s.mem q := by
  obtain ⟨s₂, fl₂, hw⟩ := h.rewritten
  rw [hw.mem, Mem.setWord_frame _ _ _ hqg, hw.walked.frame hqf hqg]
  rfl

/-- The page that was mapped before, if there was one, lost its reference. -/
theorem free_eq (h : RoundRun L e f k p g tail s s₁ fl₁) :
    (∀ q ∈ tail, q ∈ fl₁ ∨ q = g) ∧
      (∀ q ∈ fl₁, q ∈ tail ∨ own s.mem s.envs (pageSlot e k) = some q) ∧
      ∀ q, own s.mem s.envs (pageSlot e k) = some q → (s.pages q).ppRef.toNat = 1 → q ∈ fl₁ := by
  obtain ⟨s₂, fl₂, hw⟩ := h.rewritten
  have hslot : pteFrame s₂.mem s₂.envs e (pdxIdx (pageVa k)) (ptxIdx (pageVa k)) =
      own s.mem s.envs (pageSlot e k) := hw.walked.other (pageSlot e k) (by simp [pageSlot])
  have hfree := hw.free
  rw [hslot] at hfree
  refine ⟨?_, ?_, ?_⟩
  · intro q hq
    refine (hw.walked.free_kept hq).imp_left ?_
    intro hmem
    rcases hfree with ⟨rfl, -⟩ | ⟨r, -, rfl⟩
    · exact hmem
    · exact mem_afterDecref.mpr (.inl hmem)
  · intro q hq
    rcases hfree with ⟨rfl, -⟩ | ⟨r, hr, rfl⟩
    · exact .inl (hw.walked.free_sub hq)
    · rcases mem_afterDecref.mp hq with hmem | ⟨rfl, -⟩
      · exact .inl (hw.walked.free_sub hmem)
      · exact .inr hr
  · intro q hq hone
    have hqp : q ≠ p := by
      rintro rfl
      exact h.page_unowned _ hq
    rcases hfree with ⟨-, hsame⟩ | ⟨r, hr, rfl⟩
    · exact absurd (hsame q hq) hqp
    · obtain rfl := Option.some.inj (hr.symm.trans hq)
      have hqt : r ∉ tail := fun hmem =>
        h.before.free_not_owned (List.mem_cons_of_mem p hmem) _ hq
      refine mem_afterDecref.mpr (.inr ⟨rfl, ?_⟩)
      rw [hw.walked.pages_eq hqt, Machine.takePage_pages, Function.update_of_ne hqp]
      exact hone

theorem pages_eq (h : RoundRun L e f k p g tail s s₁ fl₁) {q : Nat} (hq : q ∉ p :: tail)
    (hslot : own s.mem s.envs (pageSlot e k) ≠ some q) : s₁.pages q = s.pages q := by
  obtain ⟨s₂, fl₂, hw⟩ := h.rewritten
  rw [List.mem_cons, not_or] at hq
  obtain ⟨hqp, hqt⟩ := hq
  have hother : pteFrame s₂.mem s₂.envs e (pdxIdx (pageVa k)) (ptxIdx (pageVa k)) =
      own s.mem s.envs (pageSlot e k) := hw.walked.other (pageSlot e k) (by simp [pageSlot])
  rw [hw.pages q hqp (by rw [hother]; exact hslot), hw.walked.pages_eq hqt,
    Machine.takePage_pages, Function.update_of_ne hqp]

end RoundRun

namespace GivenPages

theorem refl (h : KInv L fl s) (hf : Jos.dirFrame s.envs e = some f)
    (hnone : ∀ x : Slot, x.env = e → x ≠ .dir e → own s.mem s.envs x = none) :
    GivenPages L e f fl s s fl where
  start := h
  inv := h
  dir := hf
  rest := PagesOnly.refl s
  others _ _ := rfl
  given x p hx hdir hown := by
    rw [hnone x hx hdir] at hown
    cases hown
  flags n v hn hv := by
    have hown := own_pte (t := n.2) hf hn
    rw [hv, hnone _ rfl (by simp)] at hown
    cases hown
  free _ hp := hp
  kept _ hp := .inl hp
  frame _ _ _ := rfl
  pages _ _ := rfl

theorem dirFrame (h : GivenPages L e f all s₀ s fl) : Jos.dirFrame s.envs e = some f := by
  rw [h.rest.envs]
  exact h.dir

theorem not_kernel (h : GivenPages L e f all s₀ s fl) {x : Slot} (hx : x.env = e)
    (hdir : x ≠ .dir e) (hown : own s.mem s.envs x = some p) : ¬ L.KTable p :=
  h.start.free_not_kernel (h.given x p hx hdir hown).1

/-- A mapped page is no table of anybody. -/
theorem pte_not_table (h : GivenPages L e f all s₀ s fl) {d t : Fin 1024}
    (hown : own s.mem s.envs (.pte e d t) = some p) {x : Slot} (hx : x.IsTable) :
    own s.mem s.envs x ≠ some p := by
  intro hxp
  obtain rfl := (h.given (.pte e d t) p rfl (by simp) hown).2 x p hown hxp
  exact hx

theorem round {g : Nat} {tail : List Nat} (h : GivenPages L e f all s₀ s (p :: tail))
    (hround : RoundRun L e f k p g tail s s₁ fl₁) : GivenPages L e f all s₀ s₁ fl₁ where
  start := h.start
  inv := hround.inv
  dir := h.dir
  rest := h.rest.trans hround.pagesOnly
  others x hx := by
    have hpde : x ≠ .pde e (pdxIdx (pageVa k)) := by
      rintro rfl
      exact hx rfl
    have hpte : x ≠ pageSlot e k := by
      rintro rfl
      exact hx rfl
    rw [hround.own_eq, Function.update_of_ne hpte, Function.update_of_ne hpde]
    exact h.others x hx
  given x q hx hdir hown := by
    have heq := hround.own_eq
    by_cases hpte : x = pageSlot e k
    · subst hpte
      rw [heq, Function.update_self] at hown
      obtain rfl := Option.some.inj hown
      exact ⟨h.free p List.mem_cons_self,
        alone_inserted heq hround.page_unowned hround.table_ne_page⟩
    · by_cases hpde : x = .pde e (pdxIdx (pageVa k))
      · subst hpde
        rw [heq, Function.update_of_ne hpte, Function.update_self] at hown
        obtain rfl := Option.some.inj hown
        rcases hround.table_before with hg | ⟨-, hmem⟩
        · have hgiven := h.given _ _ rfl hdir hg
          exact ⟨hgiven.1, alone_table heq hpte hround.table_ne_page (.inl ⟨hg, hgiven.2⟩)⟩
        · have hfree : g ∈ p :: tail := List.mem_cons_of_mem p hmem
          exact ⟨h.free g hfree, alone_table heq hpte hround.table_ne_page
            (.inr (h.inv.free_not_owned hfree))⟩
      · have hold := hown
        rw [heq, Function.update_of_ne hpte, Function.update_of_ne hpde] at hold
        have hgiven := h.given x q hx hdir hold
        exact ⟨hgiven.1,
          (alone_kept heq hround.page_unowned hround.table_unowned hpte hold hgiven.2).2⟩
  flags m v hm hv := by
    by_cases hhere : m = vpn (pageVa k)
    · subst hhere
      obtain ⟨q, hq, hpte⟩ := hround.added.here 0 (by omega)
      exact ⟨q, hq, Option.some.inj (hv.symm.trans hpte)⟩
    · have hsame := hround.added.other m hm (by
        intro i hi
        obtain rfl : i = 0 := by omega
        exact hhere)
      exact h.flags m v hm (hsame.symm.trans hv)
  free q hq := by
    rcases hround.free_eq.2.1 q hq with hmem | hslot
    · exact h.free q (List.mem_cons_of_mem p hmem)
    · exact (h.given (pageSlot e k) q rfl (by simp [pageSlot]) hslot).1
  kept q hq := by
    have heq := hround.own_eq
    have hpte : own s₁.mem s₁.envs (pageSlot e k) = some p := by rw [heq, Function.update_self]
    have hpde : own s₁.mem s₁.envs (.pde e (pdxIdx (pageVa k))) = some g := by
      rw [heq, Function.update_of_ne (by simp [pageSlot]), Function.update_self]
    obtain ⟨hkeeps, -, hback⟩ := hround.free_eq
    rcases h.kept q hq with hmem | ⟨x, hx, hdir, hown⟩
    · rcases List.mem_cons.mp hmem with rfl | hmem
      · exact .inr ⟨pageSlot e k, rfl, by simp [pageSlot], hpte⟩
      · rcases hkeeps q hmem with hfree | rfl
        · exact .inl hfree
        · exact .inr ⟨_, rfl, by simp, hpde⟩
    · by_cases hxpte : x = pageSlot e k
      · subst hxpte
        exact .inl (hback q hown (h.inv.ref_one hown (h.given _ q hx hdir hown).2
          (h.not_kernel hx hdir hown)))
      · right
        refine ⟨x, hx, hdir, ?_⟩
        by_cases hxpde : x = .pde e (pdxIdx (pageVa k))
        · subst hxpde
          rcases hround.table_before with hg | ⟨hnone, -⟩
          · rw [hpde, ← hg, hown]
          · rw [hnone] at hown
            cases hown
        · rw [heq, Function.update_of_ne hxpte, Function.update_of_ne hxpde]
          exact hown
  frame q hq hqf := by
    have hqg : q ≠ g := by
      rintro rfl
      rcases hround.table_before with hg | ⟨-, hmem⟩
      · exact hq (h.given _ q rfl (by simp) hg).1
      · exact hq (h.free q (List.mem_cons_of_mem p hmem))
    rw [hround.frame hqf hqg]
    exact h.frame q hq hqf
  pages q hq := by
    have hqfl : q ∉ p :: tail := fun hmem => hq (h.free q hmem)
    have hslot : own s.mem s.envs (pageSlot e k) ≠ some q := fun hown =>
      hq (h.given (pageSlot e k) q rfl (by simp [pageSlot]) hown).1
    rw [hround.pages_eq hqfl hslot]
    exact h.pages q hq

theorem tableOf_iff (h : GivenPages L e f all s₀ s fl) {q : Nat} :
    TableOf s.mem f q ↔ ∃ d, own s.mem s.envs (.pde e d) = some q := by
  constructor
  · rintro ⟨d, hd, hq⟩
    exact ⟨d, (pdeFrame_of_dir h.dirFrame hd).trans hq⟩
  · rintro ⟨d, hq⟩
    have hd : d.val < userPdes := (pdeFrame_eq_some.mp hq).1
    exact ⟨d, hd, (pdeFrame_of_dir h.dirFrame hd).symm.trans hq⟩

theorem own_of_pteAt (h : GivenPages L e f all s₀ s fl) {m : Vpn} (hm : m.1.val < userPdes)
    {v : UInt32} (hv : pteAt s.mem f m = some v) :
    own s.mem s.envs (.pte e m.1 m.2) = some (frameOf v) := by
  rw [own_pte h.dirFrame hm, hv]
  rfl

theorem pagesApart (h : GivenPages L e f all s₀ s fl) : PagesApart s.mem f where
  dir i v hi hv heq :=
    h.pte_not_table (heq ▸ h.own_of_pteAt hi hv) (x := .dir e) trivial h.dirFrame
  table i v hi hv htable := by
    obtain ⟨d, hd⟩ := h.tableOf_iff.mp htable
    exact h.pte_not_table (h.own_of_pteAt hi hv) (x := .pde e d) trivial hd
  once i j v w hi hj hv hw heq := by
    have hvi := h.own_of_pteAt hi hv
    have hwj := h.own_of_pteAt hj hw
    rw [← heq] at hwj
    have hslot := (h.given _ _ rfl (by simp) hvi).2 _ _ hvi hwj
    rw [Slot.pte.injEq] at hslot
    exact (Prod.ext hslot.2.1 hslot.2.2).symm

/-- A mapped page that stays mapped keeps its contents. -/
theorem round_given {g : Nat} {tail : List Nat} (h : GivenPages L e f all s₀ s (p :: tail))
    (hround : RoundRun L e f k p g tail s s₁ fl₁) : PagesGiven f k 1 s s₁ where
  here := hround.added.here
  other := hround.added.other
  tables q hq := by
    obtain ⟨d, hd⟩ := h.tableOf_iff.mp hq
    refine (h.round hround).tableOf_iff.mpr ⟨d, ?_⟩
    rw [hround.own_eq, Function.update_of_ne (by simp [pageSlot])]
    by_cases hpde : d = pdxIdx (pageVa k)
    · subst hpde
      rcases hround.table_before with hg | ⟨hnone, -⟩
      · rw [Function.update_self, ← hg, hd]
      · rw [hnone] at hd
        cases hd
    · rw [Function.update_of_ne (by simpa using hpde)]
      exact hd
  frame q hqf hq := by
    refine hround.frame hqf ?_
    rintro rfl
    refine hq ((h.round hround).tableOf_iff.mpr ⟨pdxIdx (pageVa k), ?_⟩)
    rw [hround.own_eq, Function.update_of_ne (by simp [pageSlot]), Function.update_self]
  apart := (h.round hround).pagesApart
  data m hm _ v hv := by
    have hown : own s.mem s.envs (.pte e m.1 m.2) = some (frameOf v) := by
      rw [own_pte h.dirFrame hm, hv]
      rfl
    have hqf : frameOf v ≠ f := by
      intro heq
      rw [heq] at hown
      exact h.pte_not_table hown (x := .dir e) trivial h.dirFrame
    have hqg : frameOf v ≠ g := by
      intro heq
      rw [heq] at hown
      rcases hround.table_unowned with hg | ⟨-, hfree⟩
      · exact h.pte_not_table hown (x := .pde e _) trivial hg
      · exact hfree _ hown
    exact hround.frame hqf hqg

end GivenPages

theorem regionAlloc_loop {len : UInt32} (hlen : len.toNat ≤ utop.toNat) :
    regionAlloc e va len =
      regionAllocLoop e ((len.toNat + 4095) / 4096) (pageVa (va.toNat / 4096)) := by
  have hutop : utop.toNat = 4005560320 := rfl
  have hsize : pgsize.toNat = 4096 := rfl
  have hcount : (roundUp len pgsize / pgsize).toNat = (len.toNat + 4095) / 4096 := by
    rw [UInt32.toNat_div, roundUp_len (by omega), hsize]
    omega
  rw [regionAlloc, hcount, roundDown_pgsize]

theorem PagesGiven.empty (k : Nat) (h : PagesApart s.mem f) : PagesGiven f k 0 s s where
  here i hi := absurd hi (Nat.not_lt_zero i)
  other _ _ _ := rfl
  data _ _ _ _ _ := rfl
  tables _ hq := hq
  frame _ _ _ := rfl
  apart := h

theorem PagesGiven.append {n' : Nat} (h : PagesGiven f k n s s₁)
    (h' : PagesGiven f (k + n) n' s₁ s') (hk : k + n + n' ≤ 977920) :
    PagesGiven f k (n + n') s s' := by
  have hsum (i : Nat) : k + (n + i) = k + n + i := (Nat.add_assoc ..).symm
  have hindex {i : Nat} (hi : i < 977920) : (vpn (pageVa i)).1.val < userPdes :=
    pdxIdx_lt_userPdes (pageVa_lt hi)
  refine ⟨?_, ?_, ?_, fun q hq => h'.tables q (h.tables q hq), ?_, h'.apart⟩
  · intro i hi
    by_cases hin : i < n
    · obtain ⟨p, hp, hpte⟩ := h.here i hin
      refine ⟨p, hp, (h'.other _ (hindex (by omega)) ?_).trans hpte⟩
      intro j hj heq
      have hsame := vpn_pageVa_inj (by omega) (by omega) heq
      omega
    · obtain ⟨j, rfl⟩ := Nat.exists_eq_add_of_le (Nat.le_of_not_lt hin)
      rw [hsum]
      exact h'.here j (by omega)
  · intro m hm hout
    rw [h'.other m hm fun i hi => hsum i ▸ hout (n + i) (by omega),
      h.other m hm fun i hi => hout i (by omega)]
  · intro m hm hout v hv
    have hfirst : ∀ i < n, m ≠ vpn (pageVa (k + i)) := fun i hi => hout i (by omega)
    have hv₁ : pteAt s₁.mem f m = some v := (h.other m hm hfirst).trans hv
    rw [h'.data m hm (fun i hi => hsum i ▸ hout (n + i) (by omega)) v hv₁,
      h.data m hm hfirst v hv]
  · intro q hqf hq
    rw [h'.frame q hqf hq, h.frame q hqf fun hq₁ => hq (h'.tables q hq₁)]

namespace GivenPages

theorem regionLoop (n : Nat) {k : Nat} {s : Machine} {fl : List Nat}
    (h : GivenPages L e f all s₀ s fl) (hk : k + n ≤ 977920)
    (hrun : (regionAllocLoop e n (pageVa k)).run s = .ok ((), s')) :
    (∃ fl', GivenPages L e f all s₀ s' fl') ∧ PagesGiven f k n s s' := by
  induction n generalizing k s fl with
  | zero =>
    cases hrun
    exact ⟨⟨fl, h⟩, PagesGiven.empty k h.pagesApart⟩
  | succ n ih =>
    rcases h.inv.regionRound_run h.dirFrame (by omega : k < 977920) with ⟨-, hpanic⟩ |
      ⟨p, g, tail, s₁, fl₁, rfl, hround, hsteps⟩
    · rw [hpanic n] at hrun
      cases hrun
    · rw [hsteps n] at hrun
      obtain ⟨hgiven, hmore⟩ := ih (h.round hround) (by omega) hrun
      refine ⟨hgiven, ?_⟩
      have happend := (h.round_given hround).append hmore (by omega)
      rwa [Nat.add_comm 1 n] at happend

/-- The page behind an address that can be written. -/
theorem pteAt_of_walk {write user : Bool} {pa : Nat}
    (hwalk : s.walk f va write user = some pa) :
    ∃ v, pteAt s.mem f (vpn va) = some v ∧ pa = (pteAddr v).toNat + (pgoff va).toNat := by
  simp only [Machine.walk] at hwalk
  split at hwalk
  · rename_i hpde
    split at hwalk
    · rename_i hpte
      refine ⟨_, ?_, (Option.some.inj hwalk).symm⟩
      rw [vpn, pteAt_of_table (entryFrame_eq_some.mpr ⟨hpde.1, rfl⟩),
        presentEntry_of_present hpte.1]
    · cases hwalk
  · cases hwalk

end GivenPages

/-- The byte that is mapped at `va`. -/
def userByte (s : Machine) (f : Nat) (va : UInt32) : Option UInt8 :=
  (pteAt s.mem f (vpn va)).map fun v => s.mem.byte (frameOf v * 4096 + va.toNat % 4096)

/-- The bytes `c` for the `n` addresses from `va` on. -/
def bytesAt (va : UInt32) (n : Nat) (c : Nat → UInt8) : UInt32 → Option UInt8 := fun a =>
  if va.toNat ≤ a.toNat ∧ a.toNat < va.toNat + n then some (c (a.toNat - va.toNat)) else none

/-- The bytes `w` were stored below `UTOP`; the pages are mapped as they were. -/
structure Stored (f : Nat) (w : UInt32 → Option UInt8) (s s' : Machine) : Prop where
  dir : s'.mem f = s.mem f
  mapped : ∀ m : Vpn, m.1.val < userPdes → pteAt s'.mem f m = pteAt s.mem f m
  here : ∀ a < utop, ∀ b, w a = some b → userByte s' f a = some b
  other : ∀ a < utop, w a = none → userByte s' f a = userByte s f a
  frame : ∀ q, Untouched s.mem f q → s'.mem q = s.mem q

theorem TableOf.congr {m m' : Mem} {q : Nat} (h : TableOf m f q) (hdir : m' f = m f) :
    TableOf m' f q := by
  obtain ⟨d, hd, hq⟩ := h
  exact ⟨d, hd, by rw [hdir]; exact hq⟩

theorem Stored.untouched {w : UInt32 → Option UInt8} (h : Stored f w s s') {q : Nat} :
    Untouched s'.mem f q ↔ Untouched s.mem f q := by
  constructor
  · intro hq
    refine ⟨hq.dir, fun htable => hq.table (htable.congr h.dir), ?_⟩
    intro i v hi hv
    exact hq.page i v hi ((h.mapped i hi).trans hv)
  · intro hq
    refine ⟨hq.dir, fun htable => hq.table (htable.congr h.dir.symm), ?_⟩
    intro i v hi hv
    exact hq.page i v hi ((h.mapped i hi).symm.trans hv)

theorem Stored.trans {w w' : UInt32 → Option UInt8} (h : Stored f w s s₁)
    (h' : Stored f w' s₁ s') : Stored f (fun a => (w' a).or (w a)) s s' where
  dir := h'.dir.trans h.dir
  mapped m hm := (h'.mapped m hm).trans (h.mapped m hm)
  here a ha b hb := by
    cases hw : w' a with
    | some c =>
      rw [hw] at hb
      cases hb
      exact h'.here a ha _ hw
    | none =>
      rw [hw, Option.none_or] at hb
      exact (h'.other a ha hw).trans (h.here a ha b hb)
  other a ha hnone := by
    obtain ⟨hw', hw⟩ := Option.or_eq_none_iff.mp hnone
    exact (h'.other a ha hw').trans (h.other a ha hw)
  frame q hq := (h'.frame q (h.untouched.mpr hq)).trans (h.frame q hq)

theorem pteAt_congr {m m' : Mem} {i : Vpn} (hf : m' f = m f)
    (hg : ∀ g, entryFrame (m f i.1) = some g → m' g = m g) : pteAt m' f i = pteAt m f i := by
  obtain ⟨d, t⟩ := i
  cases hd : entryFrame (m f d) with
  | none =>
    have hd' : entryFrame (m' f d) = none := by rw [hf, hd]
    rw [pteAt_of_no_table hd, pteAt_of_no_table hd']
  | some g =>
    have hd' : entryFrame (m' f d) = some g := by rw [hf, hd]
    rw [pteAt_of_table hd, pteAt_of_table hd', hg g hd]

theorem Mem.byte_setByte (m : Mem) (pa pa' : Nat) (b : UInt8) :
    (m.setByte pa b).byte pa' = if pa' = pa then b else m.byte pa' := by
  unfold Mem.byte Mem.setByte
  have hmod := Nat.mod_lt pa' (by decide : 4 > 0)
  by_cases hword : pa' / 4096 = pa / 4096 ∧ wordIdx pa' = wordIdx pa
  · obtain ⟨hframe, hidx⟩ := hword
    have hval := congrArg Fin.val hidx
    simp only [wordIdx] at hval
    rw [hframe, hidx, Mem.setWord_same, byteOf_wordOf _ _ hmod]
    by_cases heq : pa' = pa
    · rw [if_pos heq, if_pos (by omega)]
    · rw [if_neg heq, if_neg (by omega)]
  · rw [Mem.setWord_of_ne _ _ (fun hframe hidx => hword ⟨hframe, hidx⟩), if_neg]
    rintro rfl
    exact hword ⟨rfl, rfl⟩

namespace GivenPages

/-- Storing a byte to a mapped page keeps all tables. -/
theorem store_tables (h : GivenPages L e f all s₀ s fl) {m : Vpn} (hm : m.1.val < userPdes)
    {v : UInt32} (hv : pteAt s.mem f m = some v) {pa : Nat} (hpa : pa / 4096 = frameOf v)
    (b : UInt8) :
    GivenPages L e f all s₀ (s.setMem (s.mem.setByte pa b)) fl ∧
      ∀ i : Vpn, i.1.val < userPdes →
        pteAt (s.mem.setByte pa b) f i = pteAt s.mem f i := by
  have hown := h.own_of_pteAt hm hv
  have hframe {g : Nat} (hg : g ≠ frameOf v) : s.mem.setByte pa b g = s.mem g :=
    Mem.setByte_frame _ _ (by rw [hpa]; exact hg)
  have htable : ∀ x g, x.IsTable → own s.mem s.envs x = some g →
      s.mem.setByte pa b g = s.mem g := by
    intro x g hx hg
    refine hframe ?_
    rintro rfl
    exact h.pte_not_table hown hx hg
  have hkernel : ∀ g, L.KTable g → s.mem.setByte pa b g = s.mem g := by
    intro g hg
    refine hframe ?_
    rintro rfl
    exact h.not_kernel rfl (by simp) hown hg
  have hsame : own (s.mem.setByte pa b) s.envs = own s.mem s.envs := own_congr_mem htable
  have hpte : ∀ i : Vpn, i.1.val < userPdes →
      pteAt (s.mem.setByte pa b) f i = pteAt s.mem f i := by
    intro i hi
    refine pteAt_congr (htable (.dir e) f trivial h.dirFrame) ?_
    intro g hg
    exact htable (.pde e i.1) g trivial ((pdeFrame_of_dir h.dirFrame hi).trans hg)
  refine ⟨?_, hpte⟩
  constructor
  · exact h.start
  · exact h.inv.setMem htable hkernel
  · exact h.dir
  · exact h.rest.trans rfl
  · intro x hx
    exact (congrFun hsame x).trans (h.others x hx)
  · intro x q hx hdir hq
    have hold := (congrFun hsame x).symm.trans hq
    rw [Machine.setMem_mem, Machine.setMem_envs, hsame]
    exact h.given x q hx hdir hold
  · intro i w hi hw
    exact h.flags i w hi ((hpte i hi).symm.trans hw)
  · exact h.free
  · intro q hq
    rw [Machine.setMem_mem, Machine.setMem_envs, hsame]
    exact h.kept q hq
  · intro g hg hgf
    refine (hframe ?_).trans (h.frame g hg hgf)
    rintro rfl
    exact hg (h.given _ _ rfl (by simp) hown).1
  · exact h.pages

/-- Different addresses below `UTOP` have different bytes behind them. -/
theorem byte_unique (h : GivenPages L e f all s₀ s fl) {a : UInt32} (hva : va < utop)
    (ha : a < utop) {v w : UInt32} (hv : pteAt s.mem f (vpn va) = some v)
    (hw : pteAt s.mem f (vpn a) = some w)
    (hsame : frameOf w * 4096 + a.toNat % 4096 = frameOf v * 4096 + va.toNat % 4096) : a = va := by
  have hpage : vpn a = vpn va := h.pagesApart.once _ _ w v (pdxIdx_lt_userPdes ha)
    (pdxIdx_lt_userPdes hva) hw hv (by omega)
  rw [vpn_eq_iff] at hpage
  exact UInt32.toNat_inj.mp (by omega)

/-- A byte is stored to an address below `UTOP`. -/
theorem store (h : GivenPages L e f all s₀ s fl) (hva : va < utop) {write user : Bool} {pa : Nat}
    (hwalk : s.walk f va write user = some pa) (b : UInt8) :
    GivenPages L e f all s₀ (s.setMem (s.mem.setByte pa b)) fl ∧
      Stored f (bytesAt va 1 fun _ => b) s (s.setMem (s.mem.setByte pa b)) := by
  obtain ⟨v, hv, hpa⟩ := pteAt_of_walk hwalk
  have hd := pdxIdx_lt_userPdes hva
  have hbyte : pa = frameOf v * 4096 + va.toNat % 4096 := by
    rw [hpa, pteAddr_toNat, pgoff_toNat, frameOf, pgnum_toNat]
  have hframe : pa / 4096 = frameOf v := by omega
  have hdir : s.mem.setByte pa b f = s.mem f := by
    refine Mem.setByte_frame _ _ ?_
    rw [hframe]
    rintro rfl
    exact h.pte_not_table (h.own_of_pteAt hd hv) (x := .dir e) trivial h.dirFrame
  obtain ⟨hgiven, hpte⟩ := h.store_tables hd hv hframe b
  have hother : ∀ q, Untouched s.mem f q → s.mem.setByte pa b q = s.mem q := fun q hq =>
    Mem.setByte_frame _ _ (by rw [hframe]; exact (hq.page _ v hd hv).symm)
  refine ⟨hgiven, hdir, hpte, ?_, ?_, hother⟩
  · intro a ha c hc
    simp only [bytesAt, Option.ite_none_right_eq_some, Option.some.injEq] at hc
    obtain ⟨hrange, rfl⟩ := hc
    obtain rfl : a = va := UInt32.toNat_inj.mp (by omega)
    rw [userByte, Machine.setMem_mem, hpte (vpn a) hd, hv, Option.map_some, Mem.byte_setByte,
      if_pos hbyte.symm]
  · intro a ha hnone
    have hava : a ≠ va := by
      rintro rfl
      rw [bytesAt, if_pos (by omega)] at hnone
      cases hnone
    unfold userByte
    rw [Machine.setMem_mem, hpte (vpn a) (pdxIdx_lt_userPdes ha)]
    cases hw : pteAt s.mem f (vpn a) with
    | none => rfl
    | some w =>
      rw [Option.map_some, Option.map_some, Mem.byte_setByte, if_neg]
      intro hsame
      exact hava (h.byte_unique hva ha hv hw (hsame.trans hbyte))

end GivenPages

end Jos
