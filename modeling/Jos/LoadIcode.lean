import Jos.EnvCreate
import Jos.FreshKernel
import Jos.LoadImage

/-!
`load_icode` after `env_alloc`: the program stands in the memory of its environment, byte for byte,
whatever pages the kernel gave it.
-/

namespace Jos

variable {L : Layout} {e : Fin nenv} {f n q : Nat} {all fl fl' tail : List Nat}
  {s₀ s s' t : Machine} {va binary : UInt32} {gens : Fin nenv → Nat} {efl : List (Fin nenv)}
  {type : EnvType} {parentId : Int32}

/-- The byte that the user reads at `va` through the page directory `f`. -/
def userRead (s : Machine) (f : Nat) (va : UInt32) : Option UInt8 :=
  (s.walk f va false true).map s.mem.byte

/-- Who may write may read. -/
theorem walk_read {user : Bool} {pa : Nat} (hwalk : s.walk f va true user = some pa) :
    s.walk f va false user = some pa := by
  have hread {v : UInt32} (hv : allows v true user) : allows v false user :=
    ⟨hv.1, fun heq => absurd heq (by decide), hv.2.2⟩
  simp only [Machine.walk] at hwalk ⊢
  split at hwalk
  · rename_i hpde
    split at hwalk
    · rename_i hpte
      rw [if_pos (hread hpde), if_pos (hread hpte)]
      exact hwalk
    · cases hwalk
  · cases hwalk

/-- What is not mapped cannot be used. -/
theorem walk_unmapped (hnone : pteAt s.mem f (vpn va) = none) (write user : Bool) :
    s.walk f va write user = none := by
  cases hwalk : s.walk f va write user with
  | none => rfl
  | some pa =>
    obtain ⟨v, hv, -⟩ := GivenPages.pteAt_of_walk hwalk
    rw [hnone] at hv
    cases hv

/-- The pages of the environment are open to the user. -/
theorem Created.walk_eq {entry : UInt32} (h : Created L e f entry type tail s s' fl')
    (hva : va < utop) {v : UInt32} (hv : pteAt s'.mem f (vpn va) = some v) (write : Bool) :
    s'.walk f va write true = some (frameOf v * 4096 + va.toNat % 4096) := by
  obtain ⟨p, hp, rfl⟩ := h.flags _ v (pdxIdx_lt_userPdes hva) hv
  have hwalk : s'.walk f va true true = some
      ((pteAddr (newPte p regionPerm)).toNat + (pgoff va).toNat) :=
    (h.inv.walk_eq_some h.dir hva).mpr ⟨_, hv, allows_newPte hp, rfl⟩
  have haddr : (pteAddr (newPte p regionPerm)).toNat + (pgoff va).toNat =
      frameOf (newPte p regionPerm) * 4096 + va.toNat % 4096 := by
    rw [pteAddr_toNat, pgoff_toNat, frameOf, pgnum_toNat]
  rw [haddr] at hwalk
  cases write
  · exact walk_read hwalk
  · exact hwalk

section SameImage

variable {image : Image} {m m' : Mem}

theorem SameImage.segmentByte (h : SameImage image m m') (hheaders : HeadersInside image m binary)
    {hdr : Proghdr} (hin : hdr.InImage image binary) (k : Nat) :
    hdr.byte m' binary k = hdr.byte m binary k := by
  have hlo := hheaders.start
  unfold Proghdr.InImage at hin
  unfold Proghdr.byte
  split
  · exact h _ (by omega) (by omega)
  · rfl

theorem SameImage.programView (h : SameImage image m m') (hheaders : HeadersInside image m binary)
    (hin : ∀ hdr ∈ Jos.loadable m binary, hdr.InImage image binary) :
    Jos.programView m' binary = Jos.programView m binary := by
  unfold Jos.programView
  rw [h.loadable hheaders, List.foldl_ext]
  intro v hdr hmem
  have hbytes : hdr.byte m' binary = hdr.byte m binary :=
    funext fun k => h.segmentByte hheaders (hin hdr hmem) k
  rw [View.load, View.load, hbytes]

theorem SameImage.programFits (h : SameImage image m m') (hprogram : ProgramFits image m binary) :
    ProgramFits image m' binary :=
  { h.headersInside hprogram.toHeadersInside with
    magic := by
      have hkend := toNat_lt image.kend
      have hlo := hprogram.start
      have hhi := hprogram.header
      exact (h.word hlo (by omega)).trans hprogram.magic
    fits := by
      rw [h.loadable hprogram.toHeadersInside]
      exact hprogram.fits }

end SameImage

/-- The environment that `env_create` makes sees its program. -/
theorem MemInv.envCreate_shows (h : MemInv L fl gens efl s) (hdir : DirLoaded L s)
    (hheaders : HeadersInside L.image s.mem binary)
    (hbelow : ∀ hdr ∈ loadable s.mem binary, hdr.BelowUtop)
    (hin : ∀ hdr ∈ loadable s.mem binary, hdr.InImage L.image binary) {r : Option (Fin nenv)}
    (hrun : (Jos.envCreate binary type).run s = .ok (r, s')) :
    ∃ e efl' f tail fl', r = some e ∧ efl = e :: efl' ∧ fl = f :: tail ∧
      Created L e f (eEntry s.mem binary) type tail s s' fl' ∧
      ShowsView s' f (programView s.mem binary) := by
  obtain ⟨e, efl', f, tail, t, rfl, rfl, rfl, hfree, rfl, hloaded⟩ :=
    h.envCreate_loaded hdir hheaders hbelow hrun
  obtain ⟨e', efl'', f', tail', fl', hr, hefl, hfl, hcreated⟩ :=
    h.envCreate hdir hheaders hbelow hrun
  obtain rfl := Option.some.inj hr
  obtain ⟨rfl, rfl⟩ := List.cons.inj hfl
  have himage := h.kinv.sameImage_newEnv (e := e) (h.kinv.free_managed List.mem_cons_self) 0
  have hshows := hloaded.shows (h.kinv.newEnv_dir hfree 0)
    (fun x hx hne => h.kinv.newEnv_empty hfree 0 hx hne)
    (by rw [himage.loadable hheaders]; exact hbelow) (by rw [himage.loadable hheaders]; exact hin)
  rw [himage.programView hheaders hin] at hshows
  exact ⟨e, efl', f, tail, fl', rfl, rfl, rfl, hcreated,
    ⟨hshows.unmapped, hshows.mapped, hshows.byte⟩⟩

/-- With enough pages and a free slot `env_create` returns. It takes a page for the page directory,
and what the program needs. -/
theorem MemInv.envCreate_leaves (h : MemInv L fl gens efl s) (hdir : DirLoaded L s)
    (hprogram : ProgramFits L.image s.mem binary) (hslot : efl ≠ [])
    (hfree : pagesNeeded (loadable s.mem binary) + n < fl.length) :
    ∃ r s' fl', (Jos.envCreate binary type).run s = .ok (r, s') ∧ KInv L fl' s' ∧
      n ≤ fl'.length := by
  obtain ⟨e, efl', rfl⟩ := List.exists_cons_of_ne_nil hslot
  obtain ⟨f, tail, rfl⟩ := List.exists_cons_of_length_pos (lt_of_le_of_lt (Nat.zero_le _) hfree)
  have hfreeEnv : (s.envs e).envStatus = .free := (h.table.free e).mp List.mem_cons_self
  have hheaders := hprogram.toHeadersInside
  have halloc := envAlloc_ok h.kinv 0 h.table.chain.head_eq
  have hinv := (h.kinv.newEnv 0 hfreeEnv).1
  obtain ⟨q, hwindow⟩ := hinv.dirLoaded (hdir.newEnv hfreeEnv 0)
  have himage := h.kinv.sameImage_newEnv (e := e) (h.kinv.free_managed List.mem_cons_self) 0
  have hsame := himage.loadable hheaders
  obtain ⟨t, fl', hload, hkinv, hspare⟩ :=
    hinv.loadIcode_returns (h.kinv.newEnv_dir hfreeEnv 0) hwindow
      (fun x hx hne => h.kinv.newEnv_empty hfreeEnv 0 hx hne) (himage.programFits hprogram)
      (n := n) (by
        rw [hsame]
        rw [List.length_cons] at hfree
        omega)
  unfold Jos.envCreate
  rw [Prog.bind_of_ok halloc]
  exact ⟨some e, t.withType e type, fl', Prog.bind_of_ok hload,
    hkinv.withType e type, hspare⟩

theorem MemInv.envCreate_returns (h : MemInv L fl gens efl s) (hdir : DirLoaded L s)
    (hprogram : ProgramFits L.image s.mem binary) (hslot : efl ≠ [])
    (hfree : pagesNeeded (loadable s.mem binary) < fl.length) :
    ∃ r, (Jos.envCreate binary type).run s = .ok r := by
  obtain ⟨r, s', -, hrun, -⟩ :=
    h.envCreate_leaves hdir hprogram hslot (lt_of_eq_of_lt (Nat.add_zero _) hfree)
  exact ⟨_, hrun⟩

/-- The program `binary` of the memory `m`, as it stands behind the page directory `f`. -/
structure ProgramLoaded (f : Nat) (m : Mem) (binary : UInt32) (s : Machine) : Prop where
  segments : ∀ h ∈ loadable m binary, ∀ k < h.pMemsz.toNat,
    userRead s f (h.pVa + UInt32.ofNat k) = some (h.byte m binary k)
  stack : ∀ k < 4096, ∃ pa, s.walk f (ustacktop - pgsize + UInt32.ofNat k) true true = some pa
  nothingElse : ∀ va < utop, (∀ h ∈ loadable m binary, va.toNat / 4096 ∉ h.pages) →
    va.toNat / 4096 ≠ stackPage → ∀ write user, s.walk f va write user = none

theorem Proghdr.Fits.belowUtop {image : Image} {hdr : Proghdr} (h : hdr.Fits image binary) :
    hdr.BelowUtop := by
  intro _
  have hbelow := h.below
  have hstack : (ustacktop - pgsize).toNat = 4005548032 := rfl
  omega

theorem ProgramFits.below {image : Image} {m : Mem} (h : ProgramFits image m binary) :
    ∀ hdr ∈ loadable m binary, hdr.BelowUtop :=
  fun hdr hmem => (h.fits hdr hmem).belowUtop

theorem Created.programLoaded {entry : UInt32} {m : Mem}
    (h : Created L e f entry type tail s s' fl') (hshows : ShowsView s' f (programView m binary))
    (hprogram : ProgramFits L.image m binary) (hapart : Apart (loadable m binary)) :
    ProgramLoaded f m binary s' := by
  have hutop : utop.toNat = 4005560320 := rfl
  have hstack : (ustacktop - pgsize).toNat = 4005548032 := rfl
  constructor
  · intro hdr hmem k hk
    have hfits := hprogram.fits hdr hmem
    have hend := hfits.below
    have haddr : (hdr.pVa + UInt32.ofNat k).toNat = hdr.pVa.toNat + k :=
      add_ofNat_toNat (by omega)
    have hva : hdr.pVa + UInt32.ofNat k < utop := by
      rw [UInt32.lt_iff_toNat_lt]
      omega
    have hview : programView m binary (hdr.pVa + UInt32.ofNat k) =
        some (some (hdr.byte m binary k)) := by
      have hout : (hdr.pVa + UInt32.ofNat k).toNat / 4096 ∉ [stackPage] := by
        rw [List.mem_singleton, stackPage]
        omega
      have hholds : hdr.Holds (hdr.pVa + UInt32.ofNat k) := by
        unfold Proghdr.Holds
        omega
      rw [programView, View.renew, if_neg hout,
        foldl_load_here _ _ (fun h hmem => hprogram.fits h hmem) hapart hmem hholds, haddr,
        Nat.add_sub_cancel_left]
    have hbyte := hshows.byte _ hva _ hview
    obtain ⟨v, hv, hb⟩ := Option.map_eq_some_iff.mp hbyte
    rw [userRead, h.walk_eq hva hv false, Option.map_some, hb]
  · intro k hk
    have haddr : (ustacktop - pgsize + UInt32.ofNat k).toNat = 4005548032 + k := by
      rw [add_ofNat_toNat (by omega), hstack]
    have hva : ustacktop - pgsize + UInt32.ofNat k < utop := by
      rw [UInt32.lt_iff_toNat_lt]
      omega
    have hmapped := hshows.mapped _ hva (by
      rw [programView, View.renew, if_pos]
      · simp
      · rw [List.mem_singleton, stackPage]
        omega)
    obtain ⟨v, hv⟩ := Option.ne_none_iff_exists'.mp hmapped
    exact ⟨_, h.walk_eq hva hv true⟩
  · intro va hva hpages hpage write user
    refine walk_unmapped (hshows.unmapped va hva ?_) write user
    rw [programView, View.renew, if_neg (by rw [List.mem_singleton]; exact hpage)]
    exact foldl_load_other _ _ (fun h hmem => hprogram.fits h hmem) hpages

/-- `env_create` loads the program: its segments that share no page stand in the memory of the new
environment, where nothing else is but the page of the stack. -/
theorem envCreate_loads_program (h : MemInv L fl gens efl s) (hdir : DirLoaded L s)
    (hprogram : ProgramFits L.image s.mem binary) (hapart : Apart (loadable s.mem binary))
    (hslot : efl ≠ []) (hfree : pagesNeeded (loadable s.mem binary) < fl.length) :
    ∃ e f s', (envCreate binary type).run s = .ok (some e, s') ∧
      s'.envs = Function.update s.envs e
        (createdRecord e (s.envs e) f (eEntry s.mem binary) type) ∧
      s'.cr3 = .pgdir (page2pa L.kd) ∧ ProgramLoaded f s.mem binary s' := by
  obtain ⟨⟨r, s'⟩, hrun⟩ : ∃ r, (envCreate binary type).run s = .ok r :=
    h.envCreate_returns hdir hprogram hslot hfree
  obtain ⟨e, efl', f, tail, fl', rfl, rfl, rfl, hcreated, hshows⟩ :=
    h.envCreate_shows hdir hprogram.toHeadersInside hprogram.below
      (fun hdr hmem => (hprogram.fits hdr hmem).contents) hrun
  exact ⟨e, f, s', hrun, hcreated.envs, hcreated.cr3,
    hcreated.programLoaded hshows hprogram hapart⟩

theorem Created.walk_isSome {entry : UInt32} {v : View} (h : Created L e f entry type tail s s' fl')
    (hshows : ShowsView s' f v) (hva : va < utop) (write : Bool) :
    (s'.walk f va write true).isSome = (v va).isSome := by
  cases hv : v va with
  | none => rw [walk_unmapped (hshows.unmapped va hva hv), Option.isSome_none, Option.isSome_none]
  | some o =>
    obtain ⟨w, hw⟩ := Option.ne_none_iff_exists'.mp (hshows.mapped va hva (by simp [hv]))
    rw [h.walk_eq hva hw, Option.isSome_some, Option.isSome_some]

theorem Created.userRead_eq {entry : UInt32} {v : View}
    (h : Created L e f entry type tail s s' fl') (hshows : ShowsView s' f v) (hva : va < utop)
    {b : UInt8} (hb : v va = some (some b)) : userRead s' f va = some b := by
  obtain ⟨w, hw, hbyte⟩ := Option.map_eq_some_iff.mp (hshows.byte va hva b hb)
  rw [userRead, h.walk_eq hva hw false, Option.map_some, hbyte]

/-- What the environment `e` in `s` and in `s'` has in common: its registers, the addresses that it
may use, and the bytes that `v` tells. -/
structure SeesAlike (e : Fin nenv) (v : View) (s s' : Machine) : Prop where
  registers : (s'.envs e).envTf = (s.envs e).envTf
  memory : ∃ f f', dirFrame s.envs e = some f ∧ dirFrame s'.envs e = some f' ∧
    (∀ va < utop, ∀ write, (s'.walk f' va write true).isSome = (s.walk f va write true).isSome) ∧
    ∀ va < utop, ∀ b, v va = some (some b) → userRead s f va = some b ∧ userRead s' f' va = some b

/-- A new environment is the same whatever else is in memory: only the kernel image and the table
of environments decide what it sees, but for the bytes of a page that no segment covers once the
page is mapped for the last time. -/
theorem envCreate_sees_program {L' : Layout} {t' : Machine} {fl₀ : List Nat}
    {gens' : Fin nenv → Nat} {efl' : List (Fin nenv)} {r r' : Option (Fin nenv)}
    (h : MemInv L fl gens efl s) (h' : MemInv L' fl₀ gens' efl' s') (hdir : DirLoaded L s)
    (hdir' : DirLoaded L' s') (hkernel : L'.image = L.image)
    (himage : SameImage L.image s.mem s'.mem) (hhead : s'.envFreeList = s.envFreeList)
    (hheaders : HeadersInside L.image s.mem binary)
    (hbelow : ∀ hdr ∈ loadable s.mem binary, hdr.BelowUtop)
    (hin : ∀ hdr ∈ loadable s.mem binary, hdr.InImage L.image binary)
    (hrun : (envCreate binary type).run s = .ok (r, t))
    (hrun' : (envCreate binary type).run s' = .ok (r', t')) :
    r' = r ∧ ∃ e, r = some e ∧ SeesAlike e (programView s.mem binary) t t' := by
  obtain ⟨e, efl₁, f, tail, fl₁, rfl, rfl, rfl, hcreated, hshows⟩ :=
    h.envCreate_shows hdir hheaders hbelow hin hrun
  have hsame := himage.loadable hheaders
  obtain ⟨e', efl₂, f', tail', fl₂, rfl, rfl, rfl, hcreated', hshows'⟩ :=
    h'.envCreate_shows hdir' (by rw [hkernel]; exact himage.headersInside hheaders)
      (by rw [hsame]; exact hbelow) (by rw [hkernel, hsame]; exact hin) hrun'
  rw [himage.programView hheaders hin] at hshows'
  have hhere : s.envFreeList = some e := h.table.chain.head_eq
  have hthere : s'.envFreeList = some e' := h'.table.chain.head_eq
  have hslot : some e' = some e := by rw [← hthere, ← hhere, hhead]
  obtain rfl := Option.some.inj hslot
  refine ⟨rfl, e', rfl, ?_, f, f', hcreated.dir, hcreated'.dir, ?_, ?_⟩
  · rw [hcreated.envs, hcreated'.envs, Function.update_self, Function.update_self,
      himage.eEntry hheaders]
    rfl
  · intro va hva write
    rw [hcreated.walk_isSome hshows hva, hcreated'.walk_isSome hshows' hva]
  · intro va hva b hb
    exact ⟨hcreated.userRead_eq hshows hva hb, hcreated'.userRead_eq hshows' hva hb⟩

/-- An ELF file with one segment, 8 bytes of the file and 8 zeros at `0x800000`. -/
def sampleFile (i : Fin 1024) : UInt32 :=
  match i.val with
  | 0 => elfMagic
  | 6 => 0x800000
  | 7 => 52
  | 11 => 1
  | 13 => elfProgLoad
  | 14 => 512
  | 15 => 0x800000
  | 17 => 8
  | 18 => 16
  | 128 => 0x33221100
  | 129 => 0x77665544
  | _ => 0

/-- A kernel with that file in frame 257 of its image. -/
def fileKernel (k : Nat) : Machine :=
  (readyKernel k).setMem fun g i => if g = 257 then sampleFile i else (readyKernel k).mem g i

theorem fileKernel_inv {k : Nat} (hk : k ≤ 65162) :
    ∃ efl, efl ≠ [] ∧
      MemInv (freshLayout k) (List.range' 374 k) (fun _ => 0) efl (fileKernel k) := by
  obtain ⟨efl, hready⟩ := readyKernel_inv hk
  refine ⟨efl, ?_, hready.kinv.setMem ?_ ?_, hready.table.pagesOnly rfl⟩
  · rintro rfl
    exact absurd ((hready.table.free 0).mpr rfl) (by simp)
  · intro x f _ hx
    have hnone : own (readyKernel k).mem (readyKernel k).envs x = none :=
      own_of_no_env (fun _ => rfl) x
    rw [hnone] at hx
    cases hx
  · intro g hg
    have hne : g ≠ 257 := by
      rintro rfl
      rcases hg with hkd | hkpt
      · exact absurd hkd (by decide : 257 ≠ 280)
      · exact absurd ((freshLayout_isKpt k).mp hkpt) (by decide)
    funext i
    exact if_neg hne

theorem fileKernel_loadable (k : Nat) :
    loadable (fileKernel k).mem 0xF0101000 = [⟨elfProgLoad, 512, 0x800000, 8, 16⟩] := by
  change loadable (fun g i => if g = 257 then sampleFile i else freshMem g i) 0xF0101000 = _
  decide

theorem fileKernel_fits (k : Nat) :
    ProgramFits (freshLayout k).image (fileKernel k).mem 0xF0101000 where
  start := by decide
  header := by
    change (0xF0101000 : UInt32).toNat + 52 ≤ sampleImage.kend.toNat
    decide
  table := by
    change _ + (ePhoff (fun g i => if g = 257 then sampleFile i else freshMem g i) _).toNat +
      32 * (ePhnum (fun g i => if g = 257 then sampleFile i else freshMem g i) _).toNat ≤
      sampleImage.kend.toNat
    decide
  magic := by
    change kernWord (fun g i => if g = 257 then sampleFile i else freshMem g i) 0xF0101000 = _
    decide
  fits h hmem := by
    rw [fileKernel_loadable, List.mem_singleton] at hmem
    subst hmem
    refine ⟨by decide, by decide, by decide, ?_⟩
    change _ ≤ sampleImage.kend.toNat
    decide

/-- The file is loaded where 650 pages are free. -/
theorem envCreate_loads_program_file :
    ∃ e f s', (envCreate 0xF0101000 .user).run (fileKernel 650) = .ok (some e, s') ∧
      s'.envs = Function.update (fileKernel 650).envs e
        (createdRecord e ((fileKernel 650).envs e) f
          (eEntry (fileKernel 650).mem 0xF0101000) .user) ∧
      s'.cr3 = .pgdir (page2pa (freshLayout 650).kd) ∧
      ProgramLoaded f (fileKernel 650).mem 0xF0101000 s' := by
  obtain ⟨efl, hslot, hinv⟩ := fileKernel_inv (k := 650) (by omega)
  refine envCreate_loads_program hinv ⟨280, rfl, .inl rfl⟩ (fileKernel_fits 650) ?_ hslot ?_
  · rw [fileKernel_loadable]
    exact List.pairwise_singleton _ _
  · rw [fileKernel_loadable, List.length_range']
    decide

/-- `env_create` returns on the file. -/
theorem fileKernel_returns {k : Nat} (hlo : 650 ≤ k) (hk : k ≤ 65162) :
    ∃ r, (envCreate 0xF0101000 .user).run (fileKernel k) = .ok r := by
  obtain ⟨efl, hslot, hinv⟩ := fileKernel_inv hk
  refine hinv.envCreate_returns ⟨280, rfl, .inl rfl⟩ (fileKernel_fits k) hslot ?_
  rw [fileKernel_loadable, List.length_range']
  have hneed : pagesNeeded [⟨elfProgLoad, 512, 0x800000, 8, 16⟩] < 650 := by decide
  omega

/-- The same file in kernels with 650 and with 5000 free pages. -/
theorem envCreate_sees_program_file :
    ∃ r t t', (envCreate 0xF0101000 .user).run (fileKernel 650) = .ok (r, t) ∧
      (envCreate 0xF0101000 .user).run (fileKernel 5000) = .ok (r, t') ∧
      ∃ e, r = some e ∧ SeesAlike e (programView (fileKernel 650).mem 0xF0101000) t t' := by
  obtain ⟨efl, -, hinv⟩ := fileKernel_inv (k := 650) (by omega)
  obtain ⟨efl', -, hinv'⟩ := fileKernel_inv (k := 5000) (by omega)
  obtain ⟨⟨r, t⟩, hrun⟩ := fileKernel_returns (k := 650) (by omega) (by omega)
  obtain ⟨⟨r', t'⟩, hrun'⟩ := fileKernel_returns (k := 5000) (by omega) (by omega)
  have hfits := fileKernel_fits 650
  obtain ⟨rfl, hsees⟩ := envCreate_sees_program hinv hinv' ⟨280, rfl, .inl rfl⟩
    ⟨280, rfl, .inl rfl⟩ rfl (fun _ _ _ => rfl) rfl hfits.toHeadersInside hfits.below
    (fun hdr hmem => (hfits.fits hdr hmem).contents) hrun hrun'
  exact ⟨r', t, t', hrun, hrun', hsees⟩

end Jos
