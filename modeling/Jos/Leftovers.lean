import Jos.LoadIcode

/-!
What a new environment finds in its pages. `region_alloc` does not clear them, so that a byte that
no segment covers is the one that was there while the page was free.
-/

namespace Jos

variable {L : Layout} {e : Fin nenv} {f k n : Nat} {all fl : List Nat} {s s' : Machine}
  {a binary : UInt32} {m m₀ : Mem} {v : View} {gens : Fin nenv → Nat} {efl : List (Fin nenv)}
  {type : EnvType}

/-- Memory is as it was in `m₀` where the page directory `f` does not lead, and where nothing was
written to the pages that `v` shows. -/
structure Remains (m₀ : Mem) (s : Machine) (f : Nat) (v : View) : Prop where
  untouched : ∀ q, Untouched s.mem f q → s.mem q = m₀ q
  byte : ∀ a < utop, v a = some none → ∀ w, pteAt s.mem f (vpn a) = some w →
    s.mem.byte (frameOf w * 4096 + a.toNat % 4096) = m₀.byte (frameOf w * 4096 + a.toNat % 4096)

theorem Mem.byte_congr {m' : Mem} {q : Nat} (h : m' q = m q) (a : UInt32) :
    m'.byte (q * 4096 + a.toNat % 4096) = m.byte (q * 4096 + a.toNat % 4096) := by
  have hframe : (q * 4096 + a.toNat % 4096) / 4096 = q := by omega
  simp only [Mem.byte, hframe, h]

theorem Remains.nothing (m : Mem) (f : Nat) (hm : s.mem = m) :
    Remains m s f fun _ => none where
  untouched q _ := congrFun hm q
  byte _ _ hopen := by cases hopen

theorem Remains.renew (h : Remains m₀ s f v) (hgiven : PagesGiven f k n s s')
    (hk : n = 0 ∨ k + n ≤ 977920)
    (hnew : ∀ i < n, pteAt s.mem f (vpn (pageVa (k + i))) = none) :
    Remains m₀ s' f (v.renew (List.range' k n)) := by
  have hkept {i : Vpn} {w : UInt32} (hi : i.1.val < userPdes) (hw : pteAt s.mem f i = some w) :
      pteAt s'.mem f i = some w ∧ ∀ j < n, i ≠ vpn (pageVa (k + j)) := by
    have hout : ∀ j < n, i ≠ vpn (pageVa (k + j)) := by
      rintro j hj rfl
      rw [hnew j hj] at hw
      cases hw
    exact ⟨(hgiven.other i hi hout).trans hw, hout⟩
  have hfree {q : Nat} (hqf : q ≠ f) (hq : ¬ TableOf s'.mem f q)
      (hpage : ∀ (i : Vpn) w, i.1.val < userPdes → pteAt s.mem f i = some w → frameOf w ≠ q) :
      s'.mem q = m₀ q := by
    rw [hgiven.frame q hqf hq]
    exact h.untouched q ⟨hqf, fun htable => hq (hgiven.tables q htable), hpage⟩
  constructor
  · intro q hq
    exact hfree hq.dir hq.table fun i w hi hw => hq.page i w hi (hkept hi hw).1
  · intro a ha hopen w hw
    have hd := pdxIdx_lt_userPdes ha
    unfold View.renew at hopen
    split at hopen
    · rename_i hpage
      rw [List.mem_range'_1] at hpage
      refine Mem.byte_congr (hfree (hgiven.apart.dir _ w hd hw) (hgiven.apart.table _ w hd hw) ?_) a
      -- the page is new: nothing that was mapped before has its frame
      intro i w' hi hw' heq
      obtain ⟨hw'', hout⟩ := hkept hi hw'
      have hsame := hgiven.apart.once _ _ _ _ hi hd hw'' hw heq
      refine hout (a.toNat / 4096 - k) (by omega) ?_
      rw [hsame, Nat.add_sub_cancel' hpage.1]
      exact vpn_pageVa a
    · rename_i hpage
      have hout := page_ne hk hpage
      rw [hgiven.other _ hd hout] at hw
      rw [← h.byte a ha hopen w hw]
      exact Mem.byte_congr (hgiven.data _ hd hout w hw) a

theorem Remains.write {w : UInt32 → Option UInt8} (h : Remains m₀ s f v)
    (hstored : Stored f w s s') : Remains m₀ s' f (v.write w) where
  untouched q hq := by
    have hq' := hstored.untouched.mp hq
    rw [hstored.frame q hq']
    exact h.untouched q hq'
  byte a ha hopen u hu := by
    unfold View.write at hopen
    split at hopen
    · cases hopen
    · rename_i hw
      have hu' := (hstored.mapped _ (pdxIdx_lt_userPdes ha)).symm.trans hu
      have hbyte := hstored.other a ha hw
      simp only [userByte, hu, hu', Option.map_some, Option.some.injEq] at hbyte
      rw [hbyte]
      exact h.byte a ha hopen u hu'

theorem Remains.segment {h : Proghdr} (hremains : Remains m₀ s f v) (hv : ShowsView s f v)
    (hfits : h.Fits L.image binary) (hnew : ∀ a : UInt32, a.toNat / 4096 ∈ h.pages → v a = none)
    (hseg : SegmentLoaded L f m binary h s s') : Remains m₀ s' f (v.load m binary h) := by
  obtain ⟨s₁, hgiven, hstored⟩ := hseg.stored hfits.contents
  have hpages := hfits.belowUtop.pages_le
  have hrenewed : Remains m₀ s₁ f (v.renew h.pages) := by
    refine hremains.renew hgiven hpages fun i hi => ?_
    have hlt : h.pVa.toNat / 4096 + i < 977920 := by omega
    refine hv.unmapped _ (pageVa_lt hlt) (hnew _ ?_)
    rw [pageVa_toNat (by omega), Nat.mul_div_cancel _ (by decide), Proghdr.pages,
      List.mem_range'_1]
    omega
  exact hrenewed.write hstored

/-- No page of one segment is taken away by another. -/
theorem Remains.segments {hs : List Proghdr} (hremains : Remains m₀ s f v) (hv : ShowsView s f v)
    (hfits : ∀ h ∈ hs, h.Fits L.image binary) (hapart : Apart hs)
    (hnew : ∀ h ∈ hs, ∀ a : UInt32, a.toNat / 4096 ∈ h.pages → v a = none)
    (hsegs : SegmentsLoaded L f m binary hs s s') :
    Remains m₀ s' f (hs.foldl (View.load m binary) v) := by
  induction hsegs generalizing v with
  | nil s => exact hremains
  | cons hseg _ ih =>
    obtain ⟨hfirst, hrest⟩ := List.pairwise_cons.mp hapart
    have hfit := hfits _ List.mem_cons_self
    refine ih (hremains.segment hv hfit (hnew _ List.mem_cons_self) hseg)
      (hv.segment hfit.belowUtop hfit.contents hseg)
      (fun h hmem => hfits h (List.mem_cons_of_mem _ hmem)) hrest ?_
    intro h hmem a ha
    rw [View.load_other hfit v fun hin => hfirst h hmem _ hin ha]
    exact hnew h (List.mem_cons_of_mem _ hmem) a ha

theorem Proghdr.Fits.stackPage_not_mem {h : Proghdr} {image : Image}
    (hfits : h.Fits image binary) : stackPage ∉ h.pages := by
  have hstack : (ustacktop - pgsize).toNat = 4005548032 := rfl
  have hbelow := hfits.below
  have hcovered := hfits.covered
  rw [roundUp_len (by omega)] at hcovered
  rw [Proghdr.pages, List.mem_range'_1, stackPage]
  omega

theorem IcodeLoaded.remains (h : IcodeLoaded L e f binary all s s')
    (hf : dirFrame s.envs e = some f)
    (hnone : ∀ x : Slot, x.env = e → x ≠ .dir e → own s.mem s.envs x = none)
    (hprogram : ProgramFits L.image s.mem binary) (hapart : Apart (loadable s.mem binary)) :
    Remains s.mem s' f (programView s.mem binary) := by
  obtain ⟨s₁, s₂, fl', hsegs, hstack, -, rfl⟩ := h.steps
  have hstart : ShowsView (s.loadPgdir (page2pa f)) f fun _ => none := ShowsView.nothing hf hnone
  have hloaded := hstart.segments hprogram.below
    (fun hdr hmem => (hprogram.fits hdr hmem).contents) hsegs
  have hnothing : Remains s.mem (s.loadPgdir (page2pa f)) f fun _ => none :=
    Remains.nothing s.mem f rfl
  have hremains := hnothing.segments hstart hprogram.fits hapart
    (fun _ _ _ _ => rfl) hsegs
  have hclosed : Remains s.mem (s₁.withEntry e (eEntry s.mem binary)) f
      ((loadable s.mem binary).foldl (View.load s.mem binary) fun _ => none) :=
    ⟨hremains.untouched, hremains.byte⟩
  have hpage := hclosed.renew hstack (.inr (by decide)) fun i hi => by
    obtain rfl : i = 0 := by omega
    refine hloaded.unmapped _ (pageVa_lt (by decide)) (foldl_load_other _ _ hprogram.fits ?_)
    intro hdr hmem
    rw [pageVa_toNat (by decide), Nat.mul_div_cancel _ (by decide)]
    exact (hprogram.fits hdr hmem).stackPage_not_mem
  exact ⟨hpage.untouched, hpage.byte⟩

/-- What the new environment can read and no segment holds was there while the page was free. -/
theorem MemInv.envCreate_leftovers (h : MemInv L fl gens efl s) (hdir : DirLoaded L s)
    (hprogram : ProgramFits L.image s.mem binary) (hapart : Apart (loadable s.mem binary))
    {r : Option (Fin nenv)} (hrun : (Jos.envCreate binary type).run s = .ok (r, s')) :
    ∃ e f, r = some e ∧ dirFrame s'.envs e = some f ∧
      ∀ a < utop, programView s.mem binary a = some none →
        ∃ pa, s'.walk f a false true = some pa ∧ pa / 4096 ∈ fl ∧
          s'.mem.byte pa = s.mem.byte pa := by
  have hheaders := hprogram.toHeadersInside
  have hin : ∀ hdr ∈ loadable s.mem binary, hdr.InImage L.image binary :=
    fun hdr hmem => (hprogram.fits hdr hmem).contents
  obtain ⟨e, efl', f, tail, t, rfl, rfl, rfl, hfree, rfl, hloaded⟩ :=
    h.envCreate_loaded hdir hheaders hprogram.below hrun
  obtain ⟨e', efl'', f', tail', fl', hr, hefl, hfl, hcreated, hshows⟩ :=
    h.envCreate_shows hdir hheaders hprogram.below hin hrun
  obtain rfl := Option.some.inj hr
  obtain ⟨rfl, rfl⟩ := List.cons.inj hfl
  have himage := h.kinv.sameImage_newEnv (e := e) (h.kinv.free_managed List.mem_cons_self) 0
  have hremains := hloaded.remains (h.kinv.newEnv_dir hfree 0)
    (fun x hx hne => h.kinv.newEnv_empty hfree 0 hx hne) (himage.programFits hprogram)
    (by rw [himage.loadable hheaders]; exact hapart)
  rw [himage.programView hheaders hin] at hremains
  refine ⟨e, f, rfl, hcreated.dir, fun a ha hopen => ?_⟩
  have hd := pdxIdx_lt_userPdes ha
  obtain ⟨w, hw⟩ := Option.ne_none_iff_exists'.mp (hshows.mapped a ha (by simp [hopen]))
  have hown : own (t.withType e type).mem (t.withType e type).envs
      (.pte e (pdxIdx a) (ptxIdx a)) = some (frameOf w) := by
    rw [own_pte hcreated.dir hd]
    exact congrArg (Option.map frameOf) hw
  have htail := (hcreated.given _ _ rfl (by simp) hown).1
  have hframe : (frameOf w * 4096 + a.toNat % 4096) / 4096 = frameOf w := by omega
  refine ⟨frameOf w * 4096 + a.toNat % 4096, hcreated.walk_eq ha hw false, ?_, ?_⟩
  · rw [hframe]
    exact List.mem_cons_of_mem f htail
  · have hne : frameOf w ≠ f := by
      rintro heq
      exact h.kinv.pool.chain.not_mem_tail (heq ▸ htail)
    have hbyte := hremains.byte a ha hopen w hw
    rw [newEnv_mem, Mem.byte_congr (newDirMem_other _ hne)] at hbyte
    exact hbyte

/-- The free pages `fl` hold `m` instead. -/
def Machine.refilled (s : Machine) (fl : List Nat) (m : Mem) : Machine :=
  s.setMem fun g => if g ∈ fl then m g else s.mem g

theorem refilled_frame (s : Machine) (m : Mem) {g : Nat} (hg : g ∉ fl) :
    (s.refilled fl m).mem g = s.mem g := if_neg hg

/-- The invariants do not depend on what free pages hold. -/
theorem MemInv.refilled (h : MemInv L fl gens efl s) (m : Mem) :
    MemInv L fl gens efl (s.refilled fl m) where
  kinv := by
    refine h.kinv.setMem ?_ ?_
    · intro x g _ hown
      exact refilled_frame s m fun hmem => h.kinv.free_not_owned hmem x hown
    · intro g hg
      exact refilled_frame s m fun hmem => h.kinv.free_not_kernel hmem hg
  table := h.table.pagesOnly rfl

theorem MemInv.sameImage_refilled (h : MemInv L fl gens efl s) (m : Mem) :
    SameImage L.image s.mem (s.refilled fl m).mem :=
  h.kinv.sameImage fun _ hg => refilled_frame s m fun hmem => hg (h.kinv.free_managed hmem)

/-- Memory that is `c` everywhere. -/
def filledWith (c : UInt8) : Mem := fun _ _ => wordOf fun _ => c

theorem refilled_byte (s : Machine) (c : UInt8) {pa : Nat} (hpa : pa / 4096 ∈ fl) :
    (s.refilled fl (filledWith c)).mem.byte pa = c := by
  have hframe : (s.refilled fl (filledWith c)).mem (pa / 4096) = filledWith c (pa / 4096) :=
    if_pos hpa
  rw [Mem.byte, hframe]
  exact byteOf_wordOf _ _ (Nat.mod_lt _ (by decide))

/-- What the environment `r` reads at `a`. -/
def envRead (s : Machine) (r : Option (Fin nenv)) (a : UInt32) : Option UInt8 :=
  r.bind fun e => (dirFrame s.envs e).bind fun f => userRead s f a

/-- The environment that `env_create` makes reads the same at `a`, whatever the free pages hold. -/
def ReadsAlike (s : Machine) (fl : List Nat) (binary : UInt32) (type : EnvType) (a : UInt32) :
    Prop :=
  ∀ m m' r r' t t', (envCreate binary type).run (s.refilled fl m) = .ok (r, t) →
    (envCreate binary type).run (s.refilled fl m') = .ok (r', t') → envRead t r a = envRead t' r' a

theorem foldl_load_open (hs : List Proghdr) (v : View) (hout : ∀ h ∈ hs, ¬ h.Holds a) :
    hs.foldl (View.load m binary) v a = some none ∨
      (∀ h ∈ hs, a.toNat / 4096 ∉ h.pages) ∧ hs.foldl (View.load m binary) v a = v a := by
  induction hs generalizing v with
  | nil => exact .inr ⟨by simp, rfl⟩
  | cons h hs ih =>
    have hload : v.load m binary h a = v.renew h.pages a := by
      have hbytes : bytesAt h.pVa h.pMemsz.toNat (h.byte m binary) a = none :=
        if_neg (hout h List.mem_cons_self)
      rw [View.load, View.write, hbytes]
    rw [List.foldl_cons]
    rcases ih (v.load m binary h) fun h' hmem => hout h' (List.mem_cons_of_mem h hmem) with
      hopen | ⟨hpages, hsame⟩
    · exact .inl hopen
    · rw [hsame, hload, View.renew]
      by_cases hpage : a.toNat / 4096 ∈ h.pages
      · exact .inl (if_pos hpage)
      · exact .inr ⟨List.forall_mem_cons.mpr ⟨hpage, hpages⟩, if_neg hpage⟩

/-- An address that no segment holds is open, or its page is not mapped. -/
theorem programView_open (hout : ∀ h ∈ loadable m binary, ¬ h.Holds a) :
    programView m binary a = some none ∨
      (∀ h ∈ loadable m binary, a.toNat / 4096 ∉ h.pages) ∧ a.toNat / 4096 ≠ stackPage ∧
        programView m binary a = none := by
  unfold programView View.renew
  by_cases hpage : a.toNat / 4096 ∈ [stackPage]
  · exact .inl (if_pos hpage)
  · rw [if_neg hpage]
    rcases foldl_load_open (loadable m binary) (fun _ => none) hout with hopen | ⟨hpages, hnone⟩
    · exact .inl hopen
    · exact .inr ⟨hpages, by simpa using hpage, hnone⟩

/-- What is not open is read as the program says. -/
theorem MemInv.envCreate_reads (h : MemInv L fl gens efl s) (hdir : DirLoaded L s)
    (hprogram : ProgramFits L.image s.mem binary) {r : Option (Fin nenv)}
    (hrun : (Jos.envCreate binary type).run s = .ok (r, s')) (ha : a < utop)
    (hclosed : programView s.mem binary a ≠ some none) :
    envRead s' r a = (programView s.mem binary a).join := by
  obtain ⟨e, efl', f, tail, fl', rfl, rfl, rfl, hcreated, hshows⟩ :=
    h.envCreate_shows hdir hprogram.toHeadersInside hprogram.below
      (fun hdr hmem => (hprogram.fits hdr hmem).contents) hrun
  rw [envRead, Option.bind_some, hcreated.dir, Option.bind_some]
  cases hv : programView s.mem binary a with
  | none =>
    rw [userRead, walk_unmapped (hshows.unmapped a ha hv)]
    rfl
  | some o =>
    cases o with
    | none => exact absurd hv hclosed
    | some b => exact hcreated.userRead_eq hshows ha hv

/-- A segment of the program holds the address, or nothing is mapped there. -/
def Settled (m : Mem) (binary a : UInt32) : Prop :=
  (∃ hdr ∈ loadable m binary, hdr.Holds a) ∨
    (∀ hdr ∈ loadable m binary, a.toNat / 4096 ∉ hdr.pages) ∧ a.toNat / 4096 ≠ stackPage

theorem programView_settled {image : Image} (hprogram : ProgramFits image m binary)
    (hapart : Apart (loadable m binary)) :
    programView m binary a ≠ some none ↔ Settled m binary a := by
  have hfit {hdr : Proghdr} (hmem : hdr ∈ loadable m binary) := hprogram.fits hdr hmem
  constructor
  · intro hclosed
    by_contra hnot
    obtain ⟨hout, hmapped⟩ := not_or.mp hnot
    rcases programView_open fun hdr hmem hholds => hout ⟨hdr, hmem, hholds⟩ with
      hopen | ⟨hpages, hpage, -⟩
    · exact hclosed hopen
    · exact hmapped ⟨hpages, hpage⟩
  · rintro (⟨hdr, hmem, hholds⟩ | ⟨hpages, hpage⟩)
    · have hpage : a.toNat / 4096 ∉ [stackPage] := by
        rw [List.mem_singleton]
        intro heq
        exact (hfit hmem).stackPage_not_mem (heq ▸ (hfit hmem).page_mem hholds)
      rw [programView, View.renew, if_neg hpage,
        foldl_load_here _ _ hprogram.fits hapart hmem hholds]
      simp
    · rw [programView, View.renew, if_neg (by simpa using hpage),
        foldl_load_other _ _ hprogram.fits hpages]
      simp

/-- A new environment sees nothing of what its pages held before exactly where a segment stands or
nothing is mapped. Everywhere else it reads the byte that stood in the page while it was free. -/
theorem readsAlike_iff (h : MemInv L fl gens efl s) (hdir : DirLoaded L s)
    (hprogram : ProgramFits L.image s.mem binary) (hapart : Apart (loadable s.mem binary))
    (hslot : efl ≠ []) (hfree : pagesNeeded (loadable s.mem binary) < fl.length) (ha : a < utop) :
    (ReadsAlike s fl binary type a ↔ Settled s.mem binary a) ∧
      (¬ Settled s.mem binary a → ∃ e f t pa,
        (envCreate binary type).run s = .ok (some e, t) ∧ dirFrame t.envs e = some f ∧
          t.walk f a false true = some pa ∧ pa / 4096 ∈ fl ∧ t.mem.byte pa = s.mem.byte pa) := by
  have hheaders := hprogram.toHeadersInside
  have hin : ∀ hdr ∈ loadable s.mem binary, hdr.InImage L.image binary :=
    fun hdr hmem => (hprogram.fits hdr hmem).contents
  have hview (m : Mem) : programView (s.refilled fl m).mem binary = programView s.mem binary :=
    (h.sameImage_refilled m).programView hheaders hin
  have hfits (m : Mem) := (h.sameImage_refilled m).programFits hprogram
  have hload (m : Mem) : loadable (s.refilled fl m).mem binary = loadable s.mem binary :=
    (h.sameImage_refilled m).loadable hheaders
  have hsettled := programView_settled (a := a) hprogram hapart
  refine ⟨⟨?_, ?_⟩, ?_⟩
  · intro halike
    rw [← hsettled]
    intro hopen
    -- the byte that the free pages were filled with is read
    have hread (c : UInt8) : ∃ r t,
        (envCreate binary type).run (s.refilled fl (filledWith c)) = .ok (r, t) ∧
          envRead t r a = some c := by
      have hinv := h.refilled (filledWith c)
      obtain ⟨⟨r, t⟩, hrun⟩ : ∃ r, (envCreate binary type).run
          (s.refilled fl (filledWith c)) = .ok r :=
        hinv.envCreate_returns hdir (hfits _) hslot (by rw [hload]; exact hfree)
      obtain ⟨e, f, rfl, hf, hleft⟩ := hinv.envCreate_leftovers hdir (hfits _)
        (by rw [hload]; exact hapart) hrun
      obtain ⟨pa, hwalk, hpa, hbyte⟩ := hleft a ha (by rw [hview]; exact hopen)
      refine ⟨some e, t, hrun, ?_⟩
      rw [envRead, Option.bind_some, hf, Option.bind_some, userRead, hwalk, Option.map_some, hbyte,
        refilled_byte s c hpa]
    obtain ⟨r, t, hrun, hzero⟩ := hread 0
    obtain ⟨r', t', hrun', hone⟩ := hread 1
    have hsame := halike _ _ _ _ _ _ hrun hrun'
    rw [hzero, hone] at hsame
    exact absurd hsame (by decide)
  · intro hseen m m' r r' t t' hrun hrun'
    have hclosed := hsettled.mpr hseen
    rw [(h.refilled m).envCreate_reads hdir (hfits m) hrun ha (by rw [hview]; exact hclosed),
      (h.refilled m').envCreate_reads hdir (hfits m') hrun' ha (by rw [hview]; exact hclosed),
      hview, hview]
  · intro hnot
    have hopen : programView s.mem binary a = some none := not_not.mp (mt hsettled.mp hnot)
    obtain ⟨⟨r, t⟩, hrun⟩ : ∃ r, (envCreate binary type).run s = .ok r :=
      h.envCreate_returns hdir hprogram hslot hfree
    obtain ⟨e, f, rfl, hf, hleft⟩ := h.envCreate_leftovers hdir hprogram hapart hrun
    obtain ⟨pa, hwalk, hpa, hbyte⟩ := hleft a ha hopen
    exact ⟨e, f, t, pa, hrun, hf, hwalk, hpa, hbyte⟩

/-- In the sample file the first segment is read alike, and the stack is not. -/
theorem readsAlike_iff_file :
    ReadsAlike (fileKernel 650) (List.range' 374 650) 0xF0101000 .user 0x800004 ∧
      ¬ ReadsAlike (fileKernel 650) (List.range' 374 650) 0xF0101000 .user 0xEEBFD000 := by
  obtain ⟨efl, hslot, hinv⟩ := fileKernel_inv (k := 650) (by omega)
  have hapart : Apart (loadable (fileKernel 650).mem 0xF0101000) := by
    rw [fileKernel_loadable]
    exact List.pairwise_singleton _ _
  have hfree : pagesNeeded (loadable (fileKernel 650).mem 0xF0101000) <
      (List.range' 374 650).length := by
    rw [fileKernel_loadable, List.length_range']
    decide
  have hread {a : UInt32} (ha : a < utop) :
      ReadsAlike (fileKernel 650) (List.range' 374 650) 0xF0101000 .user a ↔
        Settled (fileKernel 650).mem 0xF0101000 a :=
    (readsAlike_iff hinv ⟨280, rfl, .inl rfl⟩ (fileKernel_fits 650) hapart hslot hfree ha).1
  constructor
  · refine (hread (by decide)).mpr (.inl ⟨⟨elfProgLoad, 512, 0x800000, 8, 16⟩, ?_, by decide⟩)
    rw [fileKernel_loadable]
    exact List.mem_singleton_self _
  · rw [hread (by decide), Settled, fileKernel_loadable]
    decide

end Jos
