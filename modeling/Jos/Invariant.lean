import Jos.Tables

/-!
The invariant of the memory and environment code: the pages form a pool whose
counts match the references in `own`, and the tables keep their shape. The
lemmas below follow the invariant through the state changes of `PmapRun`.
-/

namespace Jos

/-- What holds of the layout that `mem_init` leaves. -/
structure Layout.Good (L : Layout) : Prop where
  npages_le : L.npages ≤ 65536
  kd_lt : L.kd < L.npages
  kd_resv : L.resv L.kd
  kpt_managed : ∀ d g, L.kpt d = some g → L.Managed g
  kpt_unique : ∀ d d' g, L.kpt d = some g → L.kpt d' = some g → d = d'
  user_empty : ∀ d : Fin 1024, d.val < userPdes → ¬ present (L.kmem L.kd d)
  image_resv : ∀ f, 256 ≤ f → 4026531840 + f * 4096 < L.image.kend.toNat → L.resv f
  image_lt : L.image.kend.toNat ≤ 4026531840 + L.npages * 4096
  /-- The window at `KERNBASE` shows all of physical memory. -/
  window : ∀ (d t : Fin 1024), 960 ≤ d.val → ∃ g, L.kpt d = some g ∧
    L.kmem g t = page2pa ((d.val - 960) * 1024 + t.val) ||| pteW ||| pteP
  /-- The user may not write `UENVS` and `UPAGES`. -/
  readonly : ∀ d g t, L.kpt d = some g → d.val < 957 → ¬ allows (L.kmem g t) true false
  /-- The user may not use anything from `ULIM` on. -/
  kernel_only : ∀ d g t, L.kpt d = some g → 957 < d.val → ¬ allows (L.kmem g t) false true

theorem Layout.Good.lt {L : Layout} (h : L.Good) {p : Nat} (hp : L.Managed p) : p < 65536 := by
  have hlt := hp.1
  have hle := h.npages_le
  omega

theorem Layout.Good.kd_lt' {L : Layout} (h : L.Good) : L.kd < 65536 := by
  have hlt := h.kd_lt
  have hle := h.npages_le
  omega

theorem Layout.Good.kd_not_managed {L : Layout} (h : L.Good) : ¬ L.Managed L.kd :=
  fun hm => hm.2 h.kd_resv

section Records

variable {s : Machine} {p : Nat}

theorem link_update (pages : Nat → PageInfo) (p : Nat) (info : PageInfo) :
    (fun q => (Function.update pages p info q).ppLink) =
      Function.update (fun q => (pages q).ppLink) p info.ppLink :=
  Function.comp_update PageInfo.ppLink pages p info

theorem cnt_update (pages : Nat → PageInfo) (p : Nat) (info : PageInfo) :
    (fun q => (Function.update pages p info q).ppRef.toNat) =
      Function.update (fun q => (pages q).ppRef.toNat) p info.ppRef.toNat :=
  Function.comp_update (fun i : PageInfo => i.ppRef.toNat) pages p info

theorem pred_eq_zero_iff (r : UInt16) : r - 1 = 0 ↔ r.toNat = 1 := by
  have hr := r.toNat_lt
  rw [← UInt16.toNat_inj, UInt16.toNat_sub]
  have hone : (1 : UInt16).toNat = 1 := rfl
  have hzero : (0 : UInt16).toNat = 0 := rfl
  rw [hone, hzero]
  omega

theorem pred_toNat {r : UInt16} (h : 0 < r.toNat) : (r - 1).toNat = r.toNat - 1 := by
  have hr := r.toNat_lt
  rw [UInt16.toNat_sub]
  have hone : (1 : UInt16).toNat = 1 := rfl
  rw [hone]
  omega

theorem succ_toNat {r : UInt16} (h : r.toNat < 65535) : (r + 1).toNat = r.toNat + 1 := by
  rw [UInt16.toNat_add]
  have hone : (1 : UInt16).toNat = 1 := rfl
  rw [hone]
  omega

/-- The free list after `page_decref` of `p`. -/
def Machine.afterDecref (s : Machine) (p : Nat) (fl : List Nat) : List Nat :=
  if (s.pages p).ppRef - 1 = 0 then p :: fl else fl

theorem mem_afterDecref {fl : List Nat} {q : Nat} :
    q ∈ s.afterDecref p fl ↔ q ∈ fl ∨ (q = p ∧ (s.pages p).ppRef.toNat = 1) := by
  simp only [Machine.afterDecref, pred_eq_zero_iff]
  split
  · rename_i hone
    simp [hone, or_comm]
  · rename_i hone
    simp [hone]

end Records

/-- The pool of pages, as the state stores it, with the references `own`. -/
def PagePool (L : Layout) (own : Slot → Option Nat) (s : Machine) (fl : List Nat) : Prop :=
  RefPool L.Managed L.base own (fun p => (s.pages p).ppLink) (fun p => (s.pages p).ppRef.toNat)
    s.pageFreeList fl

namespace PagePool

variable {L : Layout} {own : Slot → Option Nat} {s : Machine} {fl : List Nat} {p : Nat} {x : Slot}

/-- The pool only depends on the page records and the free list. -/
theorem congr (h : PagePool L own s fl) {s' : Machine} (hpages : s'.pages = s.pages)
    (hlist : s'.pageFreeList = s.pageFreeList) : PagePool L own s' fl := by
  unfold PagePool at h ⊢
  rw [hpages, hlist]
  exact h

theorem takePage (h : PagePool L own s (p :: fl)) : PagePool L own (s.takePage p) fl := by
  have htake := RefPool.take h
  unfold PagePool
  simp only [Machine.takePage, link_update, cnt_update]
  exact htake

theorem putPage (h : PagePool L own s fl) (hp : L.Managed p) (hfree : p ∉ fl)
    (hcnt : (s.pages p).ppRef = 0) : PagePool L own (s.putPage p) (p :: fl) := by
  have hput := RefPool.put h hp hfree (by simp [hcnt])
  unfold PagePool
  simp only [Machine.putPage, link_update, cnt_update, Function.update_eq_self]
  exact hput

theorem incref (h : PagePool L own s fl) (hp : L.Managed p) (hfree : p ∉ fl)
    (hx : own x = none) (hcnt : (s.pages p).ppRef.toNat < 65535) :
    PagePool L (Function.update own x (some p)) (s.incref p) fl := by
  have hatt := RefPool.attach h hp hfree hx
  unfold PagePool
  simp only [Machine.incref, Machine.setRef, link_update, cnt_update, Function.update_eq_self,
    succ_toNat hcnt]
  exact hatt

/-- The count that `page_decref` decrements to zero is that of a page with an
empty link. -/
theorem link_none (h : PagePool L own s fl) (hx : own x = some p) :
    (s.pages p).ppLink = none :=
  h.unlinked p (h.owned_managed x p hx) (RefPool.not_free_of_owned h hx)

theorem decref (h : PagePool L own s fl) (hx : own x = some p) :
    PagePool L (Function.update own x none) (s.decref p) (s.afterDecref p fl) := by
  have hpos := RefPool.cnt_pos_of_owned h hx
  unfold PagePool Machine.afterDecref
  simp only [Machine.decref_pages, Machine.decref_pageFreeList, link_update, cnt_update]
  by_cases hone : (s.pages p).ppRef - 1 = 0
  · have hrel := RefPool.release h hx ((pred_eq_zero_iff _).mp hone)
    simp only [hone, if_true]
    exact hrel
  · have hdet := RefPool.detach h hx
    simp only [hone, if_false, Function.update_eq_self, pred_toNat hpos]
    exact hdet

end PagePool

structure KInv (L : Layout) (fl : List Nat) (s : Machine) : Prop where
  good : L.Good
  image : s.image = L.image
  npages : s.npages = L.npages
  kernPgdir : s.kernPgdir = kva L.kd
  cr3 : ∃ pa, s.cr3 = .pgdir pa
  pool : PagePool L (own s.mem s.envs) s fl
  tables : TableInv L s.mem s.envs

namespace KInv

variable {L : Layout} {fl : List Nat} {s : Machine} {e : Fin nenv} {d t : Fin 1024}
  {f g p : Nat} {va v : UInt32}

theorem inWindow (h : KInv L fl s) (hf : f < 65536) : InWindow s f := by
  obtain ⟨pa, hpa⟩ := h.cr3
  exact inWindow_of_pgdir hpa hf

theorem lt_npages (h : KInv L fl s) (hp : L.Managed p) : p < s.npages := by
  rw [h.npages]
  exact hp.1

theorem head_eq (h : KInv L fl s) : s.pageFreeList = fl.head? := h.pool.chain.head_eq

theorem owned_managed (h : KInv L fl s) {x : Slot} (hx : own s.mem s.envs x = some p) :
    L.Managed p := h.pool.owned_managed x p hx

theorem owned_lt (h : KInv L fl s) {x : Slot} (hx : own s.mem s.envs x = some p) : p < 65536 :=
  h.good.lt (h.owned_managed hx)

theorem free_managed (h : KInv L fl s) (hp : p ∈ fl) : L.Managed p := h.pool.free_managed p hp

/-- A free page is no table of the kernel. -/
theorem free_not_kernel (h : KInv L fl s) (hp : p ∈ fl) : ¬ L.KTable p := by
  rintro (rfl | hkpt)
  · exact h.good.kd_not_managed (h.free_managed hp)
  · exact Layout.base_eq_zero.mp (RefPool.free_unreferenced h.pool hp).1 hkpt

theorem free_not_owned (h : KInv L fl s) (hp : p ∈ fl) (x : Slot) :
    own s.mem s.envs x ≠ some p := RefPool.not_owned_of_free h.pool hp x

theorem dir_kva (h : KInv L fl s) (hf : dirFrame s.envs e = some f) :
    (s.envs e).envPgdir = kva f := h.tables.pgdir e f hf

theorem dir_lt (h : KInv L fl s) (hf : dirFrame s.envs e = some f) : f < 65536 :=
  h.owned_lt (x := .dir e) hf

theorem pde_lt (h : KInv L fl s) (hg : pdeFrame s.mem s.envs e d = some g) : g < 65536 :=
  h.owned_lt (x := .pde e d) hg

theorem pte_lt (h : KInv L fl s) (hp : pteFrame s.mem s.envs e d t = some p) : p < 65536 :=
  h.owned_lt (x := .pte e d t) hp

/-- The page table that a directory entry names is where `pgdir_walk` looks. -/
theorem tableAt (h : KInv L fl s) (hf : dirFrame s.envs e = some f)
    (hg : pdeFrame s.mem s.envs e (pdxIdx va) = some g) : TableAt s f g va := by
  obtain ⟨hd, f', hf', hentry⟩ := pdeFrame_eq_some.mp hg
  rw [hf] at hf'
  cases hf'
  obtain ⟨hpde, hframe⟩ := entryFrame_eq_some.mp hentry
  exact ⟨h.inWindow (h.dir_lt hf), h.inWindow (h.pde_lt hg), hpde, hframe,
    h.lt_npages (h.owned_managed (x := .pde e (pdxIdx va)) hg)⟩

theorem not_present_of_pde_none (hf : dirFrame s.envs e = some f) (hd : d.val < userPdes)
    (hg : pdeFrame s.mem s.envs e d = none) : ¬ present (s.mem f d) := by
  rw [pdeFrame_of_dir hf hd] at hg
  exact entryFrame_eq_none.mp hg

theorem takePage (h : KInv L (p :: fl) s) : KInv L fl (s.takePage p) where
  good := h.good
  image := h.image
  npages := h.npages
  kernPgdir := h.kernPgdir
  cr3 := h.cr3
  pool := h.pool.takePage
  tables := h.tables

theorem putPage (h : KInv L fl s) (hp : L.Managed p) (hfree : p ∉ fl)
    (hcnt : (s.pages p).ppRef = 0) : KInv L (p :: fl) (s.putPage p) where
  good := h.good
  image := h.image
  npages := h.npages
  kernPgdir := h.kernPgdir
  cr3 := h.cr3
  pool := h.pool.putPage hp hfree hcnt
  tables := h.tables

/-- Writing to frames that hold no table keeps the invariant and every
reference. -/
theorem setMem (h : KInv L fl s) {mem' : Mem}
    (hmem : ∀ x f, x.IsTable → own s.mem s.envs x = some f → mem' f = s.mem f)
    (hkernel : ∀ f, L.KTable f → mem' f = s.mem f) : KInv L fl (s.setMem mem') where
  good := h.good
  image := h.image
  npages := h.npages
  kernPgdir := h.kernPgdir
  cr3 := h.cr3
  pool := by
    have hpool := h.pool
    rw [← own_congr_mem hmem] at hpool
    exact hpool.congr rfl rfl
  tables := h.tables.congr_mem hmem hkernel

/-- A new reference in a table, when the write `mem'` puts it there. -/
theorem attach (h : KInv L fl s) {x : Slot} {mem' : Mem} (hp : L.Managed p) (hfree : p ∉ fl)
    (hx : own s.mem s.envs x = none) (hcnt : (s.pages p).ppRef.toNat < 65535)
    (hown : own mem' s.envs = Function.update (own s.mem s.envs) x (some p))
    (htables : TableInv L mem' s.envs) : KInv L fl ((s.setMem mem').incref p) where
  good := h.good
  image := h.image
  npages := h.npages
  kernPgdir := h.kernPgdir
  cr3 := h.cr3
  pool := by
    have hpool := h.pool.incref hp hfree hx hcnt
    rw [← hown] at hpool
    exact hpool.congr rfl rfl
  tables := htables

/-- Dropping a reference of a table, when the write `mem'` takes it away. -/
theorem detach (h : KInv L fl s) {x : Slot} {mem' : Mem} (hx : own s.mem s.envs x = some p)
    (hown : own mem' s.envs = Function.update (own s.mem s.envs) x none)
    (htables : TableInv L mem' s.envs) :
    KInv L (s.afterDecref p fl) ((s.decref p).setMem mem') where
  good := h.good
  image := h.image
  npages := h.npages
  kernPgdir := h.kernPgdir
  cr3 := h.cr3
  pool := by
    have hpool := h.pool.decref hx
    rw [← hown] at hpool
    exact hpool.congr rfl rfl
  tables := htables

/-- A write to a table that changes no reference. -/
theorem rewrite (h : KInv L fl s) {mem' : Mem} (hown : own mem' s.envs = own s.mem s.envs)
    (htables : TableInv L mem' s.envs) : KInv L fl (s.setMem mem') where
  good := h.good
  image := h.image
  npages := h.npages
  kernPgdir := h.kernPgdir
  cr3 := h.cr3
  pool := by
    have hpool := h.pool
    rw [← hown] at hpool
    exact hpool.congr rfl rfl
  tables := htables

/-- What the processor has cached or loaded does not matter. -/
theorem congr (h : KInv L fl s) {s' : Machine} (himage : s'.image = s.image)
    (hnpages : s'.npages = s.npages)
    (hkern : s'.kernPgdir = s.kernPgdir) (hcr3 : ∃ pa, s'.cr3 = .pgdir pa)
    (hpages : s'.pages = s.pages) (hlist : s'.pageFreeList = s.pageFreeList)
    (hmem : s'.mem = s.mem) (henvs : s'.envs = s.envs) : KInv L fl s' where
  good := h.good
  image := himage.trans h.image
  npages := hnpages.trans h.npages
  kernPgdir := hkern.trans h.kernPgdir
  cr3 := hcr3
  pool := by
    have hpool := h.pool.congr hpages hlist
    rw [hmem, henvs]
    exact hpool
  tables := by
    rw [hmem, henvs]
    exact h.tables

/-- Updates of environments that keep who is live and with which directory. -/
theorem setEnvs (h : KInv L fl s) {envs' : Fin nenv → Env}
    (hdir : ∀ e, dirFrame envs' e = dirFrame s.envs e)
    (hpgdir : ∀ e, (envs' e).envPgdir = (s.envs e).envPgdir) : KInv L fl (s.setEnvs envs') where
  good := h.good
  image := h.image
  npages := h.npages
  kernPgdir := h.kernPgdir
  cr3 := h.cr3
  pool := by
    have hpool := h.pool
    rw [← own_congr_envs hdir] at hpool
    exact hpool.congr rfl rfl
  tables := h.tables.congr_envs hdir hpgdir

/-- The state after `pgdir_walk` created the page table `g`. -/
theorem newTable (h : KInv L (g :: fl) s) (hf : dirFrame s.envs e = some f)
    (hd : (pdxIdx va).val < userPdes)
    (hpde : pdeFrame s.mem s.envs e (pdxIdx va) = none) :
    KInv L fl (s.newTable f g va) ∧
      own (s.newTable f g va).mem s.envs =
        Function.update (own s.mem s.envs) (.pde e (pdxIdx va)) (some g) := by
  have hmem : g ∈ g :: fl := List.mem_cons_self
  have hg16 := h.good.lt (h.free_managed hmem)
  have hunowned := h.free_not_owned hmem
  have hkernel := h.free_not_kernel hmem
  have hzero : ∀ x f', x.IsTable → own s.mem s.envs x = some f' →
      s.mem.zeroFrame g f' = s.mem f' :=
    fun x f' _ hx => Mem.zeroFrame_frame _ (by rintro rfl; exact hunowned x hx)
  have hclear : KInv L fl ((s.takePage g).setMem (s.mem.zeroFrame g)) := h.takePage.setMem hzero
    (fun f' hf' => Mem.zeroFrame_frame _ (by rintro rfl; exact hkernel hf'))
  have hown : own (s.mem.zeroFrame g) s.envs = own s.mem s.envs := own_congr_mem hzero
  have hentry : entryFrame (page2pa g ||| tableFlags) = some g :=
    entryFrame_eq_some.mpr
      ⟨(present_entry (by omega)).mpr (by decide), frameOf_entry (by omega) (by decide)⟩
  have hpde' : own (s.mem.zeroFrame g) s.envs (.pde e (pdxIdx va)) = none := by
    rw [hown]
    exact hpde
  have hold : ∀ t, pteFrame (s.mem.zeroFrame g) s.envs e (pdxIdx va) t = none :=
    fun t => pteFrame_of_no_pde hpde'
  have hnew : ∀ g' t, entryFrame (page2pa g ||| tableFlags) = some g' →
      g' ≠ f ∧ entryFrame (s.mem.zeroFrame g g' t) = none := by
    intro g' t hg'
    rw [hentry] at hg'
    cases hg'
    rw [Mem.zeroFrame_same]
    refine ⟨?_, entryFrame_zero⟩
    rintro rfl
    exact hunowned (.dir e) hf
  have hset := hclear.tables.own_setPde hf hd hold hnew
  rw [hentry] at hset
  have hmem' : (s.newTable f g va).mem =
      (s.mem.zeroFrame g).setWord f (pdxIdx va) (page2pa g ||| tableFlags) := rfl
  constructor
  · have hattach := hclear.attach (x := .pde e (pdxIdx va)) (h.free_managed hmem)
      h.pool.chain.not_mem_tail hpde' (by simp) hset
      (hclear.tables.setPde hf hd hold hnew
        (by
          intro g' x hg' _ hx
          rw [hentry] at hg'
          cases hg'
          exact hunowned x ((congrFun hown x).symm.trans hx))
        (by
          intro g' hg'
          rw [hentry] at hg'
          cases hg'
          exact hkernel)
        (by
          intro g' hg'
          rw [hentry] at hg'
          cases hg'
          rfl))
    exact hattach
  · rw [hmem', ← hown]
    exact hset

/-- The state after `page_remove` of a mapped address. -/
theorem unmapped (h : KInv L fl s) (hg : pdeFrame s.mem s.envs e (pdxIdx va) = some g)
    (hp : pteFrame s.mem s.envs e (pdxIdx va) (ptxIdx va) = some p) :
    KInv L (s.afterDecref p fl) (s.unmapped g p va) ∧
      own (s.unmapped g p va).mem s.envs =
        Function.update (own s.mem s.envs) (.pte e (pdxIdx va) (ptxIdx va)) none := by
  have hset := h.tables.own_setPte hg (ptxIdx va) 0
  rw [entryFrame_zero] at hset
  have hdetach := h.detach (x := .pte e (pdxIdx va) (ptxIdx va)) hp hset
    (h.tables.setPte hg (ptxIdx va) 0)
  exact ⟨hdetach.congr rfl rfl rfl h.cr3 rfl rfl rfl rfl, hset⟩

/-- The state after `page_insert` wrote the entry of an unmapped address. -/
theorem mapped (h : KInv L fl s) (hg : pdeFrame s.mem s.envs e d = some g)
    (hnone : pteFrame s.mem s.envs e d t = none) (hv : entryFrame v = some p)
    (hp : L.Managed p) (hfree : p ∉ fl) (hcnt : (s.pages p).ppRef.toNat < 65535) :
    KInv L fl ((s.setMem (s.mem.setWord g t v)).incref p) ∧
      own (s.mem.setWord g t v) s.envs =
        Function.update (own s.mem s.envs) (.pte e d t) (some p) := by
  have hset := h.tables.own_setPte hg t v
  rw [hv] at hset
  exact ⟨h.attach (x := .pte e d t) hp hfree hnone hcnt hset (h.tables.setPte hg t v), hset⟩

/-- The state after `page_insert` changed the flags of a mapped address. -/
theorem remapped (h : KInv L fl s) (hg : pdeFrame s.mem s.envs e d = some g)
    (hsame : pteFrame s.mem s.envs e d t = some p) (hv : entryFrame v = some p) :
    KInv L fl (s.setMem (s.mem.setWord g t v)) ∧
      own (s.mem.setWord g t v) s.envs = own s.mem s.envs := by
  have hset := h.tables.own_setPte hg t v
  have hupdate : Function.update (own s.mem s.envs) (.pte e d t) (some p) =
      own s.mem s.envs := by
    rw [Function.update_eq_self_iff]
    exact hsame.symm
  rw [hv, hupdate] at hset
  exact ⟨h.rewrite hset (h.tables.setPte hg t v), hset⟩

end KInv

end Jos
