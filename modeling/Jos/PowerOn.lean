import Jos.KernelSpace
import Jos.LoadIcode
import Jos.Uvpt

/-!
The kernel from power on: what `mem_init` and `env_init` set up keeps environments apart in
whatever follows, and `i386_init` ends in user mode, at the entry point of its program.
-/

namespace Jos

variable {image : Image} {nvram : Nat → UInt8} {mem m m' : Mem} {l fl fl' : List Nat}
  {s t u : Machine} {f g : Nat} {binary : UInt32}

theorem nenv_pos : 0 < nenv := by decide

/-- `i386_init` from `mem_init` on, with the program at `binary`. Before it the console is set up
and the variables are cleared; `trap_init` sets up the descriptors that are not modelled. -/
def i386Init (binary : UInt32) : Kern Unit := do
  memInit
  envInit
  let _ ← envCreate binary .user
  envRun ⟨0, nenv_pos⟩

/-- `mem_init` does not write to the kernel image. -/
theorem Done.sameImage (h : Done image nvram mem l s t fl fl' u) (hroomy : Roomy image nvram) :
    SameImage image mem u.mem := by
  intro a hlo hhi
  have hkb : kernbase.toNat = 4026531840 := rfl
  have hext : extphysmem.toNat = 1048576 := rfl
  have hkd := image.kdFrame_spec.1
  obtain ⟨-, hnb⟩ := hroomy.basemem
  rw [hkb, hext] at hlo
  have hgood {q : Nat} (hq : 256 ≤ q) (hq' : q < image.kdFrame) : q ∉ l := by
    rw [h.mem_l, mem_initList]
    unfold Image.firstFree
    omega
  have hsub {q : Nat} (hq : q ∈ fl) : q ∈ l := by
    obtain ⟨new, hnew, -⟩ := h.mapped.tables
    exact hnew.taken ▸ List.mem_append_right new hq
  have hframe {q : Nat} (hq : 256 ≤ q) (hq' : q < image.kdFrame) : u.mem q = mem q := by
    obtain ⟨s₀, hs₀, -, -, hframes⟩ := h.testing.start
    have hql := hgood hq hq'
    have hne : q ≠ image.kdFrame := by omega
    rw [h.shuffled.frames q fun hfl => hql (hsub hfl), Machine.loadPgdir_mem,
      h.mapped.grown.frames q hne hql, hframes q hql, hs₀.mem_eq, firstPgdir,
      Mem.setWord_frame _ _ _ hne, Mem.zeroFrame_frame _ hne]
    intro d hd
    rw [h.entry.empty d hd, entryFrame_zero]
    simp
  unfold kernByte Mem.byte
  rw [hkb, hframe (by omega) (by omega)]

theorem ProgramLoaded.of_image {s' : Machine} (h : ProgramLoaded f m' binary s')
    (himage : SameImage image m m') (hp : ProgramFits image m binary) (hmem : t.mem = s'.mem) :
    ProgramLoaded f m binary t := by
  have hloadable := himage.loadable hp.toHeadersInside
  have hwalk (va : UInt32) (write user : Bool) :
      t.walk f va write user = s'.walk f va write user :=
    walk_congr (congrFun hmem f) fun g _ => congrFun hmem g
  constructor
  · intro hdr hin k hk
    have hread := h.segments hdr (hloadable ▸ hin) k hk
    rw [himage.segmentByte hp.toHeadersInside (hp.fits hdr hin).contents] at hread
    rw [← hread, userRead, userRead, hwalk, hmem]
  · intro k hk
    obtain ⟨pa, hpa⟩ := h.stack k hk
    exact ⟨pa, (hwalk ..).trans hpa⟩
  · intro va hva hno hstack write user
    rw [hwalk]
    exact h.nothingElse va hva (fun hdr hin => hno hdr (hloadable ▸ hin)) hstack write user

/-- `env_init` puts the first slot first. -/
theorem initEnvs_head (s : Machine) : (s.initEnvs 0).envFreeList = some ⟨0, by decide⟩ := by
  simp [Machine.initEnvs, nenv]

theorem startEnv_record (s : Machine) (e : Fin nenv) : (s.startEnv e).envs e =
    { s.envs e with envStatus := .running, envRuns := (s.envs e).envRuns + 1 } :=
  Function.update_self ..

/-- The kernel at the entry point of the program, in the page directory `f`. -/
structure ProgramEntered (f : Nat) (mem : Mem) (binary : UInt32) (s : Machine) : Prop where
  user : InUser ⟨0, by decide⟩ f s
  running : (s.envs ⟨0, by decide⟩).envStatus = .running
  tf : (s.envs ⟨0, by decide⟩).envTf = { initialTf with tfEip := eEntry mem binary }
  loaded : ProgramLoaded f mem binary s

theorem Done.i386Init (h : Done image nvram mem l s t fl fl' u) (hroomy : Roomy image nvram)
    (hrun : memInit.run (Machine.atEntry image nvram mem) = .ok ((), u))
    (hprogram : ProgramFits image mem binary) (hapart : Apart (loadable mem binary))
    (hroom : pagesNeeded (loadable mem binary) < fl'.length) :
    ∃ f s', (Jos.i386Init binary).run (Machine.atEntry image nvram mem) = .ok ((), s') ∧
      Lives (bootLayout image nvram u) (u.initEnvs 0) s' ∧ ProgramEntered f mem binary s' := by
  obtain ⟨efl, hboot⟩ := h.booted hroomy
  have himage := h.sameImage hroomy
  have hfits : ProgramFits (bootLayout image nvram u).image (u.initEnvs 0).mem binary :=
    himage.programFits hprogram
  have hloadable : loadable (u.initEnvs 0).mem binary = loadable mem binary :=
    himage.loadable hprogram.toHeadersInside
  have hslot : efl ≠ [] := by
    rintro rfl
    exact absurd ((hboot.inv.table.free 0).mpr (hboot.free 0)) (by simp)
  have hdir := hboot.lifeInv.dirLoaded
  obtain ⟨⟨r, s₁⟩, hcreate⟩ : ∃ r, (envCreate binary .user).run (u.initEnvs 0) = .ok r :=
    hboot.inv.envCreate_returns hdir hfits hslot (hloadable ▸ hroom)
  obtain ⟨e, efl', f, tail, fl₁, rfl, rfl, rfl, hcreated, hshows⟩ :=
    hboot.inv.envCreate_shows hdir hfits.toHeadersInside hfits.below
      (fun hdr hmem => (hfits.fits hdr hmem).contents) hcreate
  obtain rfl : e = ⟨0, by decide⟩ := by
    have hhead := hboot.inv.table.chain.head_eq
    rw [initEnvs_head] at hhead
    exact (Option.some.inj hhead).symm
  have hstart := envRun_ok hcreated.inv hcreated.dir
  have hlive : (s₁.envs ⟨0, by decide⟩).envStatus ≠ .free := (dirFrame_eq_some.mp hcreated.dir).1
  have htf : (s₁.envs ⟨0, by decide⟩).envTf = { initialTf with tfEip := eEntry mem binary } := by
    have hentry : eEntry (u.initEnvs 0).mem binary = eEntry mem binary :=
      himage.eEntry hprogram.toHeadersInside
    rw [hcreated.envs, Function.update_self, hentry]
    rfl
  have hsegments : Apart (loadable (u.initEnvs 0).mem binary) := hloadable ▸ hapart
  have hloaded := hcreated.programLoaded hshows hfits hsegments
  refine ⟨f, (s₁.stopCurenv.startEnv ⟨0, by decide⟩).loadPgdir (page2pa f), ?_, ?_, ?_⟩
  · unfold Jos.i386Init
    refine (Prog.bind_of_ok hrun).trans ?_
    refine (Prog.bind_of_ok (envInit_run u)).trans ?_
    exact (Prog.bind_of_ok hcreate).trans hstart
  · refine (Relation.ReflTransGen.single ⟨.create binary .user, ?_⟩).tail
      ⟨.run ⟨0, by decide⟩, hlive, hstart⟩
    exact ⟨hfits.toHeadersInside, hfits.below, _, hcreate⟩
  · have hrecord := startEnv_record s₁.stopCurenv ⟨0, by decide⟩
    refine ⟨⟨rfl, ?_, rfl⟩, ?_, ?_, ?_⟩
    · exact (congrFun (own_ran hcreated.dir) (.dir _)).trans hcreated.dir
    · exact congrArg Env.envStatus hrecord
    · exact (congrArg Env.envTf hrecord).trans ((stopCurenv_slot s₁ _).1.trans htf)
    · exact hloaded.of_image himage hprogram (stopCurenv_mem s₁)

/-- After `mem_init` all pages but those of the kernel's page tables are free. -/
theorem Done.free_length (h : Done image nvram mem l s t fl fl' u) :
    (initList (detected nvram).1 (detected nvram).2 (image.firstFree (detected nvram).1)).length ≤
      67 + fl'.length := by
  obtain ⟨new, hnew, hcount⟩ := h.mapped.tables
  have hlen := h.testing.perm.length_eq
  have hcard := hcount.trans (kernelRegions_card h.entry.npages)
  rw [hnew.taken, List.length_append] at hlen
  rw [h.perm.length_eq]
  omega

/-- From power on `i386_init` ends in user mode at the entry point of the program, which stands in
the memory of the first environment with nothing else but its stack. -/
theorem i386Init_enters_program (h : Roomy image nvram) (hn : (detected nvram).1 % 512 = 0)
    (hprogram : ProgramFits image mem binary) (hapart : Apart (loadable mem binary))
    (hroom : pagesNeeded (loadable mem binary) + 67 < (initList (detected nvram).1
      (detected nvram).2 (image.firstFree (detected nvram).1)).length) :
    ∃ f s', (i386Init binary).run (Machine.atEntry image nvram mem) = .ok ((), s') ∧
      ProgramEntered f mem binary s' := by
  obtain ⟨l, s, t, fl, fl', u, hrun, hdone⟩ := h.done mem hn
  have hlen := hdone.free_length
  obtain ⟨f, s', hinit, -, hentered⟩ := hdone.i386Init h hrun hprogram hapart (by omega)
  exact ⟨f, s', hinit, hentered⟩

theorem sampleNvram_room : pagesNeeded (loadable (fileKernel 650).mem 0xF0101000) + 67 <
    (initList (detected (sampleNvram 1792)).1 (detected (sampleNvram 1792)).2
      (sampleImage.firstFree (detected (sampleNvram 1792)).1)).length := by
  have hneed : pagesNeeded [⟨elfProgLoad, 512, 0x800000, 8, 16⟩] < 650 := by decide
  have hfirst : sampleImage.firstFree 32768 = 369 := by decide
  rw [fileKernel_loadable, sampleNvram_detected.1, hfirst, initList]
  simp only [List.length_append, List.length_reverse, List.length_range']
  omega

/-- The file of `fileKernel` is entered. -/
theorem i386Init_enters_program_file : ∃ f s', (i386Init 0xF0101000).run
      (Machine.atEntry sampleImage (sampleNvram 1792) (fileKernel 650).mem) = .ok ((), s') ∧
    ProgramEntered f (fileKernel 650).mem 0xF0101000 s' := by
  refine i386Init_enters_program sampleNvram_roomy (by decide) (fileKernel_fits 650) ?_
    sampleNvram_room
  rw [fileKernel_loadable]
  exact List.pairwise_singleton _ _

/-- `pgdir_walk` created the page tables of the kernel. -/
theorem bootLayout_tablesCreated (h : Done image nvram mem l s t fl fl' u) :
    (bootLayout image nvram u).TablesCreated := by
  intro d g hg
  obtain ⟨hd, hg⟩ := h.kpt_eq_some.mp hg
  rw [h.mem_kd] at hg
  have hflags := h.entry.table_flags h.mapped hd hg
  exact (congrFun h.mem_kd d).trans hflags.2

/-- From power on, whatever the kernel and the environments do: no page is lost or used twice, an
environment reaches its own pages only, its virtual page table tells the truth, and above `UTOP`
it sees the address space of `inc/memlayout.h`. -/
theorem safe_from_power_on (h : Roomy image nvram) (hn : (detected nvram).1 % 512 = 0)
    (mem : Mem) :
    ∃ u, memInit.run (Machine.atEntry image nvram mem) = .ok ((), u) ∧
      ∃ v, envInit.run u = .ok ((), v) ∧
        ∀ s, Lives (bootLayout image nvram u) v s →
          (∀ p, (bootLayout image nvram u).Managed p → ¬ (bootLayout image nvram u).KTable p →
            PageAccounted (bootLayout image nvram u) s p) ∧
          ∀ e f, dirFrame s.envs e = some f → Confined (bootLayout image nvram u) s e f ∧
            (∀ va, UvptTruth s e va) ∧
            ∀ va, utop ≤ va → pdxIdx va ≠ uvptIdx → ∀ write user, s.walk f va write user =
              kernelSpace image (detected nvram).1 (image.kdFrame + 1)
                (image.kdFrame + 1 + pagesFrames (detected nvram).1) va write user := by
  obtain ⟨l, s₀, t, fl, fl', u, hrun, hdone⟩ := h.done mem hn
  obtain ⟨efl, hboot⟩ := hdone.booted h
  refine ⟨u, hrun, u.initEnvs 0, envInit_run u, ?_⟩
  intro s hlives
  obtain ⟨fl₁, gens, efl₁, hinv⟩ := Lives.inv hboot.lifeInv hlives
  refine ⟨fun p hp hkernel => hinv.accounted hp hkernel, ?_⟩
  intro e f hf
  have hlive : (s.envs e).envStatus ≠ .free := (dirFrame_eq_some.mp hf).1
  refine ⟨hinv.confined hf, hinv.kinv.uvptTruth (bootLayout_tablesCreated hdone) hlive, ?_⟩
  intro va hva hd write user
  have hupper : s.walk f va write user = u.walk image.kdFrame va write user :=
    hinv.kinv.walk_upper (hdone.kinv h) hf hva hd write user
  rw [hupper, hdone.kernelSpace.areas va hd write user]

/-- The file of `fileKernel` runs, and is confined. -/
theorem safe_from_power_on_file : ∃ u s e f,
    memInit.run (Machine.atEntry sampleImage (sampleNvram 1792) (fileKernel 650).mem) =
      .ok ((), u) ∧
    InUser e f s ∧ Confined (bootLayout sampleImage (sampleNvram 1792) u) s e f := by
  obtain ⟨u, hrun, v, hinit, hsafe⟩ :=
    safe_from_power_on sampleNvram_roomy (by decide) (fileKernel 650).mem
  obtain ⟨l, s₀, t, fl, fl', u', hrun', hdone⟩ :=
    sampleNvram_roomy.done (fileKernel 650).mem (by decide)
  obtain rfl : u = u' := by
    rw [hrun] at hrun'
    cases hrun'
    rfl
  obtain rfl : u.initEnvs 0 = v := by
    rw [envInit_run] at hinit
    cases hinit
    rfl
  have hroom := sampleNvram_room
  have hlen := hdone.free_length
  obtain ⟨f, s, -, hlives, hentered⟩ := hdone.i386Init sampleNvram_roomy hrun
    (fileKernel_fits 650) (by
      rw [fileKernel_loadable]
      exact List.pairwise_singleton _ _) (by omega)
  exact ⟨u, s, _, f, hrun, hentered.user, ((hsafe s hlives).2 _ f hentered.user.dir).1⟩

end Jos
