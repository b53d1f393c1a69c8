import Jos.LoadSegments
import Jos.MemRuns

/-!
`env_create`: what it leaves, and that `env_free` afterwards restores what was there before.
-/

namespace Jos

variable {L : Layout} {e : Fin nenv} {f n q : Nat} {all fl fl' tail : List Nat}
  {s s₁ s' t : Machine} {ph binary entry : UInt32} {gens : Fin nenv → Nat} {efl : List (Fin nenv)}
  {type : EnvType}

/-- Both memories have the same bytes in the kernel image. -/
def SameImage (image : Image) (m m' : Mem) : Prop :=
  ∀ a, kernbase.toNat + extphysmem.toNat ≤ a → a < image.kend.toNat → kernByte m' a = kernByte m a

namespace SameImage

variable {image : Image} {m m' : Mem}

theorem word (h : SameImage image m m') {a : UInt32}
    (hlo : kernbase.toNat + extphysmem.toNat ≤ a.toNat) (hhi : a.toNat + 4 ≤ image.kend.toNat) :
    kernWord m' a = kernWord m a := by
  apply wordOf_congr
  intro k hk
  exact h _ (by omega) (by omega)

theorem proghdrAt (h : SameImage image m m')
    (hlo : kernbase.toNat + extphysmem.toNat ≤ ph.toNat)
    (hhi : ph.toNat + 32 ≤ image.kend.toNat) : Jos.proghdrAt m' ph = Jos.proghdrAt m ph := by
  have hkend := toNat_lt image.kend
  have hword (i : Nat) (hi : i ≤ 28) :
      kernWord m' (ph + UInt32.ofNat i) = kernWord m (ph + UInt32.ofNat i) := by
    have haddr : (ph + UInt32.ofNat i).toNat = ph.toNat + i := add_ofNat_toNat (by omega)
    exact h.word (by omega) (by omega)
  have hfirst := h.word hlo (by omega)
  unfold Jos.proghdrAt
  rw [hfirst, show kernWord m' (ph + 4) = kernWord m (ph + 4) from hword 4 (by omega),
    show kernWord m' (ph + 8) = kernWord m (ph + 8) from hword 8 (by omega),
    show kernWord m' (ph + 16) = kernWord m (ph + 16) from hword 16 (by omega),
    show kernWord m' (ph + 20) = kernWord m (ph + 20) from hword 20 (by omega)]

theorem proghdrs (h : SameImage image m m') (n : Nat) {ph : UInt32}
    (hlo : kernbase.toNat + extphysmem.toNat ≤ ph.toNat)
    (hhi : ph.toNat + 32 * n ≤ image.kend.toNat) : Jos.proghdrs m' n ph = Jos.proghdrs m n ph := by
  induction n generalizing ph with
  | zero => rfl
  | succ n ih =>
    have hkend := toNat_lt image.kend
    have hsize : sizeofProghdr.toNat = 32 := rfl
    unfold Jos.proghdrs
    rw [h.proghdrAt hlo (by omega)]
    cases n with
    | zero => rfl
    | succ n =>
      have hnext : (ph + sizeofProghdr).toNat = ph.toNat + 32 := by
        rw [UInt32.toNat_add, hsize]
        omega
      rw [ih (by omega) (by omega)]

theorem ePhoff (h : SameImage image m m') (hheaders : HeadersInside image m binary) :
    Jos.ePhoff m' binary = Jos.ePhoff m binary := by
  have hkend := toNat_lt image.kend
  have hlo := hheaders.start
  have hhi := hheaders.header
  have haddr : (binary + 28).toNat = binary.toNat + 28 := add_ofNat_toNat (b := 28) (by omega)
  exact h.word (by omega) (by omega)

theorem ePhnum (h : SameImage image m m') (hheaders : HeadersInside image m binary) :
    Jos.ePhnum m' binary = Jos.ePhnum m binary := by
  have hlo := hheaders.start
  have hhi := hheaders.header
  unfold Jos.ePhnum
  rw [h _ (by omega) (by omega), h _ (by omega) (by omega)]

theorem headersInside (h : SameImage image m m') (hheaders : HeadersInside image m binary) :
    HeadersInside image m' binary where
  start := hheaders.start
  header := hheaders.header
  table := by
    rw [h.ePhoff hheaders, h.ePhnum hheaders]
    exact hheaders.table

theorem loadable (h : SameImage image m m') (hheaders : HeadersInside image m binary) :
    Jos.loadable m' binary = Jos.loadable m binary := by
  have hlo := hheaders.start
  have htable := hheaders.table
  have hph := hheaders.phoff_toNat
  unfold Jos.loadable
  rw [h.ePhoff hheaders, h.ePhnum hheaders, h.proghdrs _ (by omega) (by omega)]

end SameImage

/-- The environment in the slot `e` after `env_create`. -/
def createdRecord (e : Fin nenv) (env : Env) (f : Nat) (entry : UInt32) (type : EnvType) : Env :=
  { newEnvRecord e env f 0 with
    envTf := { initialTf with tfEip := entry }
    envType := type }

def Machine.withType (s : Machine) (e : Fin nenv) (type : EnvType) : Machine :=
  s.setEnvs (Function.update s.envs e { s.envs e with envType := type })

/-- What `env_create` leaves when it takes the slot `e` and the page `f` for its page directory:
the new environment has pages of the list `tail`, the rest of the free list, and nothing else has
changed. -/
structure Created (L : Layout) (e : Fin nenv) (f : Nat) (entry : UInt32) (type : EnvType)
    (tail : List Nat) (s s' : Machine) (fl' : List Nat) : Prop where
  inv : KInv L fl' s'
  dir : dirFrame s'.envs e = some f
  others : ∀ x : Slot, x.env ≠ e → own s'.mem s'.envs x = own s.mem s.envs x
  given : ∀ x p, x.env = e → x ≠ .dir e → own s'.mem s'.envs x = some p →
    p ∈ tail ∧ Alone (own s'.mem s'.envs) x
  flags : ∀ (n : Vpn) v, n.1.val < userPdes → pteAt s'.mem f n = some v →
    ∃ p < 65536, v = newPte p regionPerm
  free : ∀ p ∈ fl', p ∈ tail
  kept : ∀ p ∈ tail, p ∈ fl' ∨ ∃ x : Slot, x.env = e ∧ x ≠ .dir e ∧ own s'.mem s'.envs x = some p
  frame : ∀ g, g ∉ tail → g ≠ f → s'.mem g = s.mem g
  records : ∀ q, q ∉ tail → q ≠ f → s'.pages q = s.pages q
  envs : s'.envs = Function.update s.envs e (createdRecord e (s.envs e) f entry type)
  envFreeList : s'.envFreeList = (s.envs e).envLink
  curenv : s'.curenv = s.curenv
  cr3 : s'.cr3 = .pgdir (page2pa L.kd)

theorem own_of_free (hfree : (s.envs e).envStatus = .free) {x : Slot} (hx : x.env = e) :
    own s.mem s.envs x = none := by
  have hdir := dirFrame_eq_none.mpr hfree
  have hpde (d : Fin 1024) : pdeFrame s.mem s.envs e d = none := by
    simp [pdeFrame, hdir]
  cases x with
  | dir e' =>
    cases hx
    exact hdir
  | pde e' d =>
    cases hx
    exact hpde d
  | pte e' d t =>
    cases hx
    exact pteFrame_of_no_pde (hpde d)

/-- A new environment refers to its page directory and to nothing else. -/
theorem KInv.newEnv_empty (h : KInv L (f :: fl) s) (hfree : (s.envs e).envStatus = .free)
    (parentId : Int32) {x : Slot} (hx : x.env = e) (hne : x ≠ .dir e) :
    own (s.newEnv e f L.kd parentId).mem (s.newEnv e f L.kd parentId).envs x = none := by
  rw [(h.newEnv parentId hfree).2, Function.update_of_ne hne]
  exact own_of_free hfree hx

theorem KInv.newEnv_dir (h : KInv L (f :: fl) s) (hfree : (s.envs e).envStatus = .free)
    (parentId : Int32) : dirFrame (s.newEnv e f L.kd parentId).envs e = some f :=
  (congrFun (h.newEnv parentId hfree).2 (.dir e)).trans (Function.update_self ..)

/-- The kernel image is in no page that can be handed out. -/
theorem KInv.sameImage (h : KInv L fl s) {m : Mem}
    (hframe : ∀ g, ¬ L.Managed g → m g = s.mem g) : SameImage L.image s.mem m := by
  intro a hlo hhi
  have hkb : kernbase.toNat = 4026531840 := rfl
  have hext : extphysmem.toNat = 1048576 := rfl
  have hresv : ¬ L.Managed ((a - kernbase.toNat) / 4096) := fun hm =>
    hm.2 (h.good.image_resv _ (by omega) (by omega))
  rw [kernByte, kernByte, Mem.byte, Mem.byte, hframe _ hresv]

theorem KInv.sameImage_newEnv (h : KInv L fl s) (hf : L.Managed f) (parentId : Int32) :
    SameImage L.image s.mem (s.newEnv e f L.kd parentId).mem := by
  refine h.sameImage fun g hg => ?_
  rw [newEnv_mem, newDirMem_other]
  rintro rfl
  exact hg hf

theorem Created.sameImage (h : Created L e f entry type tail s s' fl')
    (hinv : KInv L (f :: tail) s) : SameImage L.image s.mem s'.mem := by
  refine hinv.sameImage fun g hg => h.frame g ?_ ?_
  · exact fun hmem => hg (hinv.free_managed (List.mem_cons_of_mem f hmem))
  · rintro rfl
    exact hg (hinv.free_managed List.mem_cons_self)

/-- `env_create` returns only when it found a slot, a page and a program to load. -/
theorem MemInv.envCreate_ok (h : MemInv L fl gens efl s) {r : Option (Fin nenv) × Machine}
    (hrun : (envCreate binary type).run s = .ok r) :
    ∃ e efl' f tail t, efl = e :: efl' ∧ fl = f :: tail ∧
      (loadIcode e binary).run (s.newEnv e f L.kd 0) = .ok ((), t) ∧
      r = (some e, t.withType e type) := by
  unfold envCreate at hrun
  rcases envAlloc_cases h.kinv h.table 0 with ⟨-, hr⟩ | ⟨-, -, hr⟩ |
    ⟨e, efl', f, tail, rfl, rfl, hr⟩
  · rw [Prog.bind_of_ok hr] at hrun
    exact absurd hrun (panic_ne_ok _ _ _)
  · rw [Prog.bind_of_ok hr] at hrun
    exact absurd hrun (panic_ne_ok _ _ _)
  · rw [Prog.bind_of_ok hr] at hrun
    obtain ⟨⟨⟩, t, hload, hrest⟩ := Prog.bind_eq_ok.mp hrun
    exact ⟨e, efl', f, tail, t, rfl, rfl, hload, (Except.ok.inj hrest).symm⟩

/-- `kern_pgdir` or the page directory of an environment is loaded. -/
def DirLoaded (L : Layout) (s : Machine) : Prop :=
  ∃ q, s.cr3 = .pgdir (page2pa q) ∧ (q = L.kd ∨ ∃ e, dirFrame s.envs e = some q)

theorem KInv.dirLoaded (h : KInv L fl s) (hload : DirLoaded L s) : ∃ q, WindowLoaded L q s := by
  obtain ⟨q, hcr3, rfl | ⟨e, hf⟩⟩ := hload
  · exact ⟨_, h.windowLoaded_kern hcr3⟩
  · exact ⟨q, h.windowLoaded hf hcr3⟩

/-- A new environment leaves the loaded page directory alone. -/
theorem DirLoaded.newEnv (hload : DirLoaded L s) (hfree : (s.envs e).envStatus = .free)
    (parentId : Int32) : DirLoaded L (s.newEnv e f L.kd parentId) := by
  obtain ⟨q, hcr3, hq⟩ := hload
  refine ⟨q, (newEnv_cr3 ..).trans hcr3, hq.imp_right ?_⟩
  rintro ⟨e', he'⟩
  have hne : e' ≠ e := by
    rintro rfl
    exact (dirFrame_eq_some.mp he').1 hfree
  exact ⟨e', by rw [newEnv_envs, dirFrame_update_ne hne]; exact he'⟩

theorem withType_dirFrame (s : Machine) (e e' : Fin nenv) (type : EnvType) :
    dirFrame (s.withType e type).envs e' = dirFrame s.envs e' := by
  unfold Machine.withType dirFrame
  rw [Machine.setEnvs_envs]
  by_cases he : e' = e
  · subst he
    rw [Function.update_self]
  · rw [Function.update_of_ne he]

theorem withType_envPgdir (s : Machine) (e e' : Fin nenv) (type : EnvType) :
    ((s.withType e type).envs e').envPgdir = (s.envs e').envPgdir := by
  unfold Machine.withType
  rw [Machine.setEnvs_envs]
  by_cases he : e' = e
  · subst he
    rw [Function.update_self]
  · rw [Function.update_of_ne he]

theorem KInv.withType (h : KInv L fl s) (e : Fin nenv) (type : EnvType) :
    KInv L fl (s.withType e type) :=
  h.setEnvs (withType_dirFrame s e · type) (withType_envPgdir s e · type)

/-- The loaded program in the slot of the environment. -/
theorem GivenPages.created (h : KInv L (f :: tail) s) (hfree : (s.envs e).envStatus = .free)
    (hgiven : GivenPages L e f tail
      (((s.newEnv e f L.kd 0).loadPgdir (page2pa f)).withEntry e entry) s₁ fl') (type : EnvType) :
    Created L e f entry type tail s ((s₁.loadPgdir (page2pa L.kd)).withType e type) fl' := by
  obtain ⟨-, hnew⟩ := h.newEnv 0 hfree
  have hown : own ((s₁.loadPgdir (page2pa L.kd)).withType e type).mem
      ((s₁.loadPgdir (page2pa L.kd)).withType e type).envs = own s₁.mem s₁.envs :=
    own_congr_envs (withType_dirFrame (s₁.loadPgdir (page2pa L.kd)) e · type)
  have hstart : own (((s.newEnv e f L.kd 0).loadPgdir (page2pa f)).withEntry e entry).mem
      (((s.newEnv e f L.kd 0).loadPgdir (page2pa f)).withEntry e entry).envs =
        Function.update (own s.mem s.envs) (.dir e) (some f) := by
    rw [← hnew]
    exact own_congr_envs
      (withEntry_dirFrame ((s.newEnv e f L.kd 0).loadPgdir (page2pa f)) e · entry)
  constructor
  · exact (hgiven.inv.loadPgdir _).withType e type
  · rw [withType_dirFrame]
    exact hgiven.dirFrame
  · intro x hx
    have hne : x ≠ .dir e := by
      rintro rfl
      exact hx rfl
    rw [hown, hgiven.others x hx, hstart, Function.update_of_ne hne]
  · rw [hown]
    exact hgiven.given
  · exact hgiven.flags
  · exact hgiven.free
  · rw [hown]
    exact hgiven.kept
  · intro g hg hgf
    have hframe := hgiven.frame g hg hgf
    rw [withEntry_mem, Machine.loadPgdir_mem, newEnv_mem, newDirMem_other _ hgf] at hframe
    exact hframe
  · intro q hq hqf
    have hpages := hgiven.pages q hq
    rw [withEntry_pages, Machine.loadPgdir_pages, newEnv_pages, Function.update_of_ne hqf] at hpages
    exact hpages
  · have henvs := hgiven.rest.envs
    unfold Machine.withType
    rw [Machine.setEnvs_envs, Machine.loadPgdir_envs, henvs, Machine.withEntry,
      Machine.setEnvs_envs, Function.update_idem, Function.update_self]
    rw [Machine.loadPgdir_envs, newEnv_envs, Function.update_idem, Function.update_self]
    rfl
  · have hlist := hgiven.rest.envFreeList
    rw [withEntry_envFreeList, Machine.loadPgdir_envFreeList, newEnv_envFreeList] at hlist
    exact hlist
  · have hcurenv := hgiven.rest.curenv
    rw [withEntry_curenv, Machine.loadPgdir_curenv, newEnv_curenv] at hcurenv
    exact hcurenv
  · rfl

/-- `env_create` of a program whose segments are below `UTOP`, when it returns, has loaded it. -/
theorem MemInv.envCreate_loaded (h : MemInv L fl gens efl s) (hdir : DirLoaded L s)
    (hheaders : HeadersInside L.image s.mem binary)
    (hbelow : ∀ hdr ∈ loadable s.mem binary, hdr.BelowUtop) {r : Option (Fin nenv)}
    (hrun : (Jos.envCreate binary type).run s = .ok (r, s')) :
    ∃ e efl' f tail t, r = some e ∧ efl = e :: efl' ∧ fl = f :: tail ∧
      (s.envs e).envStatus = .free ∧ s' = t.withType e type ∧
      IcodeLoaded L e f binary tail (s.newEnv e f L.kd 0) t := by
  obtain ⟨e, efl', f, tail, t, rfl, rfl, hload, hr⟩ := h.envCreate_ok hrun
  obtain ⟨rfl, rfl⟩ := Prod.mk.inj hr
  have hfree : (s.envs e).envStatus = .free := (h.table.free e).mp List.mem_cons_self
  have hinv := (h.kinv.newEnv 0 hfree).1
  obtain ⟨q, hwindow⟩ := hinv.dirLoaded (hdir.newEnv hfree 0)
  have himage := h.kinv.sameImage_newEnv (e := e) (h.kinv.free_managed List.mem_cons_self) 0
  refine ⟨e, efl', f, tail, t, rfl, rfl, rfl, hfree, rfl, ?_⟩
  exact hinv.loadIcode (h.kinv.newEnv_dir hfree 0) hwindow
    (fun x hx hne => h.kinv.newEnv_empty hfree 0 hx hne) (himage.headersInside hheaders)
    (by rw [himage.loadable hheaders]; exact hbelow) hload

theorem SameImage.eEntry {image : Image} {m m' : Mem} (h : SameImage image m m')
    (hheaders : HeadersInside image m binary) : Jos.eEntry m' binary = Jos.eEntry m binary := by
  have hlo := hheaders.start
  have hhi := hheaders.header
  have hkend := toNat_lt image.kend
  have haddr : (binary + 24).toNat = binary.toNat + 24 := add_ofNat_toNat (b := 24) (by omega)
  exact h.word (by omega) (by omega)

theorem MemInv.envCreate (h : MemInv L fl gens efl s) (hdir : DirLoaded L s)
    (hheaders : HeadersInside L.image s.mem binary)
    (hbelow : ∀ hdr ∈ loadable s.mem binary, hdr.BelowUtop) {r : Option (Fin nenv)}
    (hrun : (Jos.envCreate binary type).run s = .ok (r, s')) :
    ∃ e efl' f tail fl', r = some e ∧ efl = e :: efl' ∧ fl = f :: tail ∧
      Created L e f (eEntry s.mem binary) type tail s s' fl' := by
  obtain ⟨e, efl', f, tail, t, rfl, rfl, rfl, hfree, rfl, hloaded⟩ :=
    h.envCreate_loaded hdir hheaders hbelow hrun
  obtain ⟨s₁, s₂, fl', -, -, hgiven, rfl⟩ := hloaded.steps
  have himage := h.kinv.sameImage_newEnv (e := e) (h.kinv.free_managed List.mem_cons_self) 0
  rw [himage.eEntry hheaders] at hgiven
  exact ⟨e, efl', f, tail, fl', rfl, rfl, rfl, GivenPages.created h.kinv hfree hgiven type⟩

end Jos
