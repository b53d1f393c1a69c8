import Jos.LoadRuns

/-!
What `load_icode` leaves: the segments of the program one after the other, and the page of the
stack.
-/

namespace Jos

/-- What the segment has at its byte `k`. -/
def Proghdr.byte (h : Proghdr) (m : Mem) (binary : UInt32) (k : Nat) : UInt8 :=
  if k < h.pFilesz.toNat then kernByte m (binary.toNat + h.pOffset.toNat + k) else 0

/-- The byte `k` of the segment comes from the kernel image, or from nowhere. -/
def Proghdr.Inside (h : Proghdr) (image : Image) (binary : UInt32) (k : Nat) : Prop :=
  k < h.pFilesz.toNat → binary.toNat + h.pOffset.toNat + k < image.kend.toNat

/-- The segment of the header `h` was loaded: fresh pages, and its bytes in them. -/
structure SegmentLoaded (L : Layout) (f : Nat) (m : Mem) (binary : UInt32) (h : Proghdr)
    (s s' : Machine) : Prop where
  fits : h.pFilesz ≤ h.pMemsz
  steps : ∃ s₁ c, PagesGiven f (h.pVa.toNat / 4096) ((h.pMemsz.toNat + 4095) / 4096) s s₁ ∧
    Stored f (bytesAt h.pVa h.pMemsz.toNat c) s₁ s' ∧
    ∀ k < h.pMemsz.toNat, h.Inside L.image binary k → c k = h.byte m binary k

/-- The segments were loaded one after the other. -/
inductive SegmentsLoaded (L : Layout) (f : Nat) (m : Mem) (binary : UInt32) :
    List Proghdr → Machine → Machine → Prop
  | nil (s : Machine) : SegmentsLoaded L f m binary [] s s
  | cons {h : Proghdr} {hs : List Proghdr} {s s₁ s' : Machine}
      (hseg : SegmentLoaded L f m binary h s s₁) (hrest : SegmentsLoaded L f m binary hs s₁ s') :
      SegmentsLoaded L f m binary (h :: hs) s s'

/-- The program header at `ph` reads as `hdr`. -/
structure ReadsHeader (ph : UInt32) (hdr : Proghdr) (s : Machine) : Prop where
  type : (phType ph).run s = .ok (hdr.pType, s)
  offset : (phOffset ph).run s = .ok (hdr.pOffset, s)
  va : (phVa ph).run s = .ok (hdr.pVa, s)
  filesz : (phFilesz ph).run s = .ok (hdr.pFilesz, s)
  memsz : (phMemsz ph).run s = .ok (hdr.pMemsz, s)

variable {L : Layout} {e : Fin nenv} {f n q : Nat} {all fl : List Nat} {s₀ s s₁ s' : Machine}
  {ph eph binary : UInt32}

/-- `load_icode` after the pages of a segment are mapped. -/
def storeSegment (binary ph : UInt32) : Kern Unit := do
  memcpy (← phVa ph) (binary + (← phOffset ph)) (← phFilesz ph)
  memset ((← phVa ph) + (← phFilesz ph)) 0 ((← phMemsz ph) - (← phFilesz ph))

theorem loadSegment_eq (e : Fin nenv) (binary ph : UInt32) :
    loadSegment e binary ph = (do
      if (← phType ph) = elfProgLoad then
        if (← phFilesz ph) > (← phMemsz ph) then
          panic "load_icode: file size is greater than memory size"
        else
          regionAlloc e (← phVa ph) (← phMemsz ph)
          storeSegment binary ph) := rfl

theorem regionAlloc_zero (e : Fin nenv) (va : UInt32) (s : Machine) :
    (regionAlloc e va 0).run s = .ok ((), s) := by
  rw [regionAlloc_loop (Nat.zero_le _)]
  rfl

theorem memcpy_zero (d src : UInt32) (s : Machine) : (memcpy d src 0).run s = .ok ((), s) := by
  unfold memcpy memmove
  split <;> rfl

namespace GivenPages

/-- The bytes of the file come from the kernel image, also when memory is written meanwhile. -/
theorem file_byte (h : GivenPages L e f all s₀ s fl) (hcr3 : s₀.cr3 = .pgdir (page2pa f))
    {src : UInt32} {k : Nat} {b : UInt8}
    (hlo : kernbase.toNat + extphysmem.toNat ≤ src.toNat + k)
    (hhi : src.toNat + k < L.image.kend.toNat)
    (hrun : (vloadByte (src + UInt32.ofNat k)).run s = .ok (b, s')) :
    b = kernByte s₀.mem (src.toNat + k) := by
  have hend := toNat_lt L.image.kend
  have haddr : (src + UInt32.ofNat k).toNat = src.toNat + k := add_ofNat_toNat (by omega)
  rw [h.inv.vloadByte_kernel (h.windowLoaded hcr3) (by omega), haddr] at hrun
  cases hrun
  exact h.image_byte hlo hhi

/-- A program header reads the same at any time. -/
theorem readsHeader (h : GivenPages L e f all s₀ s fl) (hcr3 : s₀.cr3 = .pgdir (page2pa f))
    (hlo : kernbase.toNat + extphysmem.toNat ≤ ph.toNat)
    (hhi : ph.toNat + 32 ≤ L.image.kend.toNat) : ReadsHeader ph (proghdrAt s₀.mem ph) s := by
  have hend := toNat_lt L.image.kend
  have hword (i : Nat) (hi : i ≤ 28) : (vload32 (ph + UInt32.ofNat i)).run s =
      .ok (kernWord s₀.mem (ph + UInt32.ofNat i), s) := by
    have haddr : (ph + UInt32.ofNat i).toNat = ph.toNat + i := add_ofNat_toNat (by omega)
    exact h.vload32_image hcr3 (by omega) (by omega)
  have hfirst := h.vload32_image hcr3 hlo (by omega)
  exact ⟨hfirst, hword 4 (by omega), hword 8 (by omega), hword 16 (by omega), hword 20 (by omega)⟩

/-- A segment that reaches beyond `UTOP` is never completely stored. -/
theorem storeSegment_above {hdr : Proghdr} (h : GivenPages L e f all s₀ s fl)
    (hcr3 : s₀.cr3 = .pgdir (page2pa f))
    (hreads : ∀ {t fl'}, GivenPages L e f all s₀ t fl' → ReadsHeader ph hdr t)
    (hsize : hdr.pFilesz ≤ hdr.pMemsz) (hlo : hdr.pVa.toNat ≤ utop.toNat)
    (hhi : utop.toNat < hdr.pVa.toNat + hdr.pMemsz.toNat)
    (hend : hdr.pVa.toNat + hdr.pMemsz.toNat ≤ utop.toNat + 4096) :
    (Jos.storeSegment binary ph).run s ≠ .ok ((), s') := by
  have hutop : utop.toNat = 4005560320 := rfl
  have hsizes := UInt32.le_iff_toNat_le.mp hsize
  unfold Jos.storeSegment
  rw [Prog.bind_of_ok (hreads h).va, Prog.bind_of_ok (hreads h).offset,
    Prog.bind_of_ok (hreads h).filesz]
  intro hrun
  obtain ⟨⟨⟩, s₁, hcopy, hrun⟩ := Prog.bind_eq_ok.mp hrun
  by_cases hfile : hdr.pVa.toNat + hdr.pFilesz.toNat ≤ utop.toNat
  · obtain ⟨h₁, -⟩ := h.memcpy (fun _ _ => True) hcr3 hfile (fun _ _ _ _ _ _ _ => trivial) hcopy
    rw [Prog.bind_of_ok (hreads h₁).va, Prog.bind_of_ok (hreads h₁).filesz,
      Prog.bind_of_ok (hreads h₁).memsz, Prog.bind_of_ok (hreads h₁).filesz] at hrun
    have hstart : (hdr.pVa + hdr.pFilesz).toNat = hdr.pVa.toNat + hdr.pFilesz.toNat := by
      rw [UInt32.toNat_add]
      omega
    have hrest : (hdr.pMemsz - hdr.pFilesz).toNat = hdr.pMemsz.toNat - hdr.pFilesz.toNat :=
      UInt32.toNat_sub_of_le _ _ hsize
    refine h₁.memsetLoop_above _ hcr3 ?_ ?_ ?_ hrun
    · rw [hstart]
      exact hfile
    · rw [hstart, hrest]
      omega
    · rw [hstart, hrest]
      omega
  · exact h.memcpy_above hcr3 hlo (by omega) (by omega) hcopy

/-- The bytes of the file, and zeros behind them. -/
theorem storeSegment {hdr : Proghdr} (h : GivenPages L e f all s₀ s fl)
    (hcr3 : s₀.cr3 = .pgdir (page2pa f))
    (hbinary : kernbase.toNat + extphysmem.toNat ≤ binary.toNat)
    (hreads : ∀ {t fl'}, GivenPages L e f all s₀ t fl' → ReadsHeader ph hdr t)
    (hsize : hdr.pFilesz ≤ hdr.pMemsz)
    (hend : hdr.pVa.toNat + hdr.pMemsz.toNat ≤ utop.toNat)
    (hrun : (Jos.storeSegment binary ph).run s = .ok ((), s')) :
    GivenPages L e f all s₀ s' fl ∧
      ∃ c, Stored f (bytesAt hdr.pVa hdr.pMemsz.toNat c) s s' ∧
        ∀ k < hdr.pMemsz.toNat, hdr.Inside L.image binary k → c k = hdr.byte s₀.mem binary k := by
  have hutop : utop.toNat = 4005560320 := rfl
  have hkend := toNat_lt L.image.kend
  have hsizes := UInt32.le_iff_toNat_le.mp hsize
  unfold Jos.storeSegment at hrun
  rw [Prog.bind_of_ok (hreads h).va, Prog.bind_of_ok (hreads h).offset,
    Prog.bind_of_ok (hreads h).filesz] at hrun
  obtain ⟨⟨⟩, s₁, hcopy, hrun⟩ := Prog.bind_eq_ok.mp hrun
  obtain ⟨h₁, c, hcopied, hc⟩ := h.memcpy
    (fun k b => binary.toNat + hdr.pOffset.toNat + k < L.image.kend.toNat →
      b = kernByte s₀.mem (binary.toNat + hdr.pOffset.toNat + k)) hcr3 (by omega)
    (by
      intro k _ t b t' ht hb hin
      have hsrc : (binary + hdr.pOffset).toNat = binary.toNat + hdr.pOffset.toNat := by
        rw [UInt32.toNat_add]
        omega
      rw [← hsrc] at hin ⊢
      exact ht.file_byte hcr3 (by omega) hin hb) hcopy
  rw [Prog.bind_of_ok (hreads h₁).va, Prog.bind_of_ok (hreads h₁).filesz,
    Prog.bind_of_ok (hreads h₁).memsz, Prog.bind_of_ok (hreads h₁).filesz] at hrun
  have hrest : (hdr.pMemsz - hdr.pFilesz).toNat = hdr.pMemsz.toNat - hdr.pFilesz.toNat :=
    UInt32.toNat_sub_of_le _ _ hsize
  have hbehind : hdr.pVa + hdr.pFilesz = hdr.pVa + UInt32.ofNat hdr.pFilesz.toNat := by
    rw [UInt32.ofNat_toNat]
  rw [hbehind] at hrun
  unfold memset at hrun
  rw [hrest] at hrun
  have hstart : (hdr.pVa + UInt32.ofNat hdr.pFilesz.toNat).toNat =
      hdr.pVa.toNat + hdr.pFilesz.toNat := add_ofNat_toNat (by omega)
  obtain ⟨h₂, hzeros⟩ := h₁.memsetLoop _ hcr3 (by omega) hrun
  have hstored := hcopied.append hzeros (by omega)
  rw [Nat.add_sub_cancel' hsizes] at hstored
  refine ⟨h₂, _, hstored, ?_⟩
  intro k hk hin
  unfold joined Proghdr.byte
  by_cases hfile : k < hdr.pFilesz.toNat
  · rw [if_pos hfile, if_pos hfile]
    exact hc k hfile (hin hfile)
  · rw [if_neg hfile, if_neg hfile]

/-- An empty segment stores nothing, wherever it is. -/
theorem storeSegment_empty {hdr : Proghdr} (h : GivenPages L e f all s₀ s fl)
    (hreads : ∀ {t fl'}, GivenPages L e f all s₀ t fl' → ReadsHeader ph hdr t)
    (hsize : hdr.pFilesz ≤ hdr.pMemsz) (hzero : hdr.pMemsz = 0) :
    (Jos.storeSegment binary ph).run s = .ok ((), s) := by
  have hfile : hdr.pFilesz = 0 := by
    rw [hzero, UInt32.le_iff_toNat_le] at hsize
    exact UInt32.toNat_inj.mp (Nat.le_zero.mp hsize)
  unfold Jos.storeSegment
  rw [Prog.bind_of_ok (hreads h).va, Prog.bind_of_ok (hreads h).offset,
    Prog.bind_of_ok (hreads h).filesz, hfile, Prog.bind_of_ok (memcpy_zero _ _ s),
    Prog.bind_of_ok (hreads h).va, Prog.bind_of_ok (hreads h).filesz,
    Prog.bind_of_ok (hreads h).memsz, Prog.bind_of_ok (hreads h).filesz, hfile, hzero]
  rfl

theorem loadSegment {hdr : Proghdr} (h : GivenPages L e f all s₀ s fl)
    (hcr3 : s₀.cr3 = .pgdir (page2pa f))
    (hbinary : kernbase.toNat + extphysmem.toNat ≤ binary.toNat)
    (hreads : ∀ {t fl'}, GivenPages L e f all s₀ t fl' → ReadsHeader ph hdr t)
    (hbelow : hdr.pType = elfProgLoad → hdr.BelowUtop)
    (hrun : (Jos.loadSegment e binary ph).run s = .ok ((), s')) :
    (∃ fl', GivenPages L e f all s₀ s' fl') ∧
      if hdr.pType = elfProgLoad then SegmentLoaded L f s₀.mem binary hdr s s' else s' = s := by
  have hutop : utop.toNat = 4005560320 := rfl
  rw [loadSegment_eq, Prog.bind_of_ok (hreads h).type] at hrun
  by_cases hload : hdr.pType = elfProgLoad
  · rw [if_pos hload] at hrun ⊢
    rw [Prog.bind_of_ok (hreads h).filesz, Prog.bind_of_ok (hreads h).memsz] at hrun
    by_cases hsize : hdr.pFilesz > hdr.pMemsz
    · rw [if_pos hsize] at hrun
      exact absurd hrun (panic_ne_ok _ _ _)
    · rw [if_neg hsize, Prog.bind_of_ok (hreads h).va, Prog.bind_of_ok (hreads h).memsz] at hrun
      rw [gt_iff_lt, UInt32.not_lt] at hsize
      by_cases hzero : hdr.pMemsz = 0
      · rw [hzero, Prog.bind_of_ok (regionAlloc_zero e hdr.pVa s),
          h.storeSegment_empty hreads hsize hzero] at hrun
        cases hrun
        refine ⟨⟨fl, h⟩, hsize, s, fun _ => 0, ?_, ?_, ?_⟩
        · rw [hzero]
          exact PagesGiven.empty _ h.pagesApart
        · rw [hzero]
          exact Stored.empty _
        · intro k hk
          rw [hzero] at hk
          exact absurd hk (Nat.not_lt_zero k)
      · have hpages := hbelow hload hzero
        have hpos : hdr.pMemsz.toNat ≠ 0 := fun heq => hzero (UInt32.toNat_inj.mp heq)
        obtain ⟨⟨⟩, s₁, halloc, hstore⟩ := Prog.bind_eq_ok.mp hrun
        obtain ⟨⟨fl₁, h₁⟩, hgiven⟩ := h.regionAlloc hpages halloc
        have hend : hdr.pVa.toNat + hdr.pMemsz.toNat ≤ utop.toNat := by
          by_contra habove
          exact h₁.storeSegment_above hcr3 hreads hsize (by omega) (by omega) (by omega) hstore
        obtain ⟨h₂, c, hstored, hc⟩ := h₁.storeSegment hcr3 hbinary hreads hsize hend hstore
        exact ⟨⟨fl₁, h₂⟩, hsize, s₁, c, hgiven, hstored, hc⟩
  · rw [if_neg hload] at hrun ⊢
    cases hrun
    exact ⟨⟨fl, h⟩, rfl⟩

theorem loadSegments (n : Nat) {ph : UInt32} {s : Machine} {fl : List Nat}
    (h : GivenPages L e f all s₀ s fl) (hcr3 : s₀.cr3 = .pgdir (page2pa f))
    (hbinary : kernbase.toNat + extphysmem.toNat ≤ binary.toNat)
    (hlo : kernbase.toNat + extphysmem.toNat ≤ ph.toNat)
    (heph : eph.toNat = ph.toNat + 32 * n) (hhi : eph.toNat ≤ L.image.kend.toNat)
    (hbelow : ∀ hdr ∈ proghdrs s₀.mem n ph, hdr.pType = elfProgLoad → hdr.BelowUtop)
    (hrun : (Jos.loadSegments e binary eph n ph).run s = .ok ((), s')) :
    (∃ fl', GivenPages L e f all s₀ s' fl') ∧
      SegmentsLoaded L f s₀.mem binary
        ((proghdrs s₀.mem n ph).filter fun hdr => hdr.pType = elfProgLoad) s s' := by
  induction n generalizing ph s fl with
  | zero =>
    cases hrun
    exact ⟨⟨fl, h⟩, .nil _⟩
  | succ n ih =>
    have hend := toNat_lt L.image.kend
    have hsize : sizeofProghdr.toNat = 32 := rfl
    have hnext : (ph + sizeofProghdr).toNat = ph.toNat + 32 := by
      rw [UInt32.toNat_add, hsize]
      omega
    have hlt : ph < eph := by
      rw [UInt32.lt_iff_toNat_lt]
      omega
    unfold Jos.loadSegments at hrun
    rw [if_pos hlt] at hrun
    obtain ⟨⟨⟩, s₁, hfirst, hrest⟩ := Prog.bind_eq_ok.mp hrun
    have hreads {t : Machine} {fl' : List Nat} (ht : GivenPages L e f all s₀ t fl') :
        ReadsHeader ph (proghdrAt s₀.mem ph) t := ht.readsHeader hcr3 hlo (by omega)
    obtain ⟨⟨fl₁, h₁⟩, hseg⟩ := h.loadSegment hcr3 hbinary hreads
      (hbelow _ List.mem_cons_self) hfirst
    obtain ⟨hgiven, hsegs⟩ := ih h₁ (by omega) (by omega)
      (fun hdr hmem => hbelow hdr (List.mem_cons_of_mem _ hmem)) hrest
    refine ⟨hgiven, ?_⟩
    unfold proghdrs
    by_cases hload : (proghdrAt s₀.mem ph).pType = elfProgLoad
    · rw [if_pos hload] at hseg
      rw [List.filter_cons_of_pos (by simpa using hload)]
      exact .cons hseg hsegs
    · rw [if_neg hload] at hseg
      rw [hseg] at hsegs
      rw [List.filter_cons_of_neg (by simpa using hload)]
      exact hsegs

/-- Other fields of the environments do not matter. -/
theorem setEnvs (h : GivenPages L e f all s₀ s fl) {envs' : Fin nenv → Env}
    (hdir : ∀ e', Jos.dirFrame envs' e' = Jos.dirFrame s.envs e')
    (hpgdir : ∀ e', (envs' e').envPgdir = (s.envs e').envPgdir) :
    GivenPages L e f all (s₀.setEnvs envs') (s.setEnvs envs') fl := by
  have henvs := h.rest.envs
  have hsame : own s.mem envs' = own s.mem s.envs := own_congr_envs hdir
  have hsame₀ : own s₀.mem envs' = own s₀.mem s₀.envs := by
    rw [henvs] at hdir
    exact own_congr_envs hdir
  constructor
  · exact h.start.setEnvs (fun e' => henvs ▸ hdir e') (fun e' => henvs ▸ hpgdir e')
  · exact h.inv.setEnvs hdir hpgdir
  · exact (hdir e).trans h.dirFrame
  · have heq := h.rest.eq
    unfold PagesOnly
    rw [heq]
    rfl
  · intro x hx
    exact (congrFun hsame x).trans ((h.others x hx).trans (congrFun hsame₀ x).symm)
  · intro x q hx hne hown
    rw [Machine.setEnvs_mem, Machine.setEnvs_envs, hsame] at hown ⊢
    exact h.given x q hx hne hown
  · exact h.flags
  · exact h.free
  · intro q hq
    rw [Machine.setEnvs_mem, Machine.setEnvs_envs, hsame]
    exact h.kept q hq
  · exact h.frame
  · exact h.pages

end GivenPages

/-- `e->env_tf.tf_eip = elf->e_entry`. -/
def Machine.withEntry (s : Machine) (e : Fin nenv) (eip : UInt32) : Machine :=
  s.setEnvs (Function.update s.envs e
    { s.envs e with envTf := { (s.envs e).envTf with tfEip := eip } })

def eEntry (m : Mem) (binary : UInt32) : UInt32 := kernWord m (binary + 24)

/-- The number of the page below `USTACKTOP`. -/
def stackPage : Nat := 977917

section WithEntryFields

variable (s : Machine) (e : Fin nenv) (entry : UInt32)

@[simp] theorem withEntry_mem : (s.withEntry e entry).mem = s.mem := rfl

@[simp] theorem withEntry_pages : (s.withEntry e entry).pages = s.pages := rfl

@[simp] theorem withEntry_envFreeList : (s.withEntry e entry).envFreeList = s.envFreeList := rfl

@[simp] theorem withEntry_curenv : (s.withEntry e entry).curenv = s.curenv := rfl

end WithEntryFields

theorem withEntry_dirFrame (s : Machine) (e e' : Fin nenv) (entry : UInt32) :
    dirFrame (s.withEntry e entry).envs e' = dirFrame s.envs e' := by
  unfold Machine.withEntry dirFrame
  rw [Machine.setEnvs_envs]
  by_cases he : e' = e
  · subst he
    rw [Function.update_self]
  · rw [Function.update_of_ne he]

theorem withEntry_envPgdir (s : Machine) (e e' : Fin nenv) (entry : UInt32) :
    ((s.withEntry e entry).envs e').envPgdir = (s.envs e').envPgdir := by
  unfold Machine.withEntry
  rw [Machine.setEnvs_envs]
  by_cases he : e' = e
  · subst he
    rw [Function.update_self]
  · rw [Function.update_of_ne he]

theorem GivenPages.withEntry (h : GivenPages L e f all s₀ s fl) (entry : UInt32) :
    GivenPages L e f all (s₀.withEntry e entry) (s.withEntry e entry) fl := by
  have hgiven := h.setEnvs (withEntry_dirFrame s e · entry) (withEntry_envPgdir s e · entry)
  unfold Machine.withEntry at hgiven ⊢
  rw [h.rest.envs] at hgiven ⊢
  exact hgiven

/-- What `load_icode` leaves: the segments are loaded, and after them the page of the stack. -/
structure IcodeLoaded (L : Layout) (e : Fin nenv) (f : Nat) (binary : UInt32) (all : List Nat)
    (s s' : Machine) : Prop where
  magic : kernWord s.mem binary = elfMagic
  steps : ∃ s₁ s₂ fl',
    SegmentsLoaded L f s.mem binary (loadable s.mem binary) (s.loadPgdir (page2pa f)) s₁ ∧
    PagesGiven f stackPage 1 (s₁.withEntry e (eEntry s.mem binary)) s₂ ∧
    GivenPages L e f all ((s.loadPgdir (page2pa f)).withEntry e (eEntry s.mem binary)) s₂ fl' ∧
    s' = s₂.loadPgdir (page2pa L.kd)

theorem KInv.loadPgdir (h : KInv L fl s) (pa : UInt32) : KInv L fl (s.loadPgdir pa) :=
  h.congr rfl rfl rfl ⟨_, rfl⟩ rfl rfl rfl rfl

theorem HeadersInside.phoff_toNat {image : Image} {m : Mem} (h : HeadersInside image m binary) :
    (binary + ePhoff m binary).toNat = binary.toNat + (ePhoff m binary).toNat := by
  have hend := toNat_lt image.kend
  have htable := h.table
  rw [UInt32.toNat_add]
  omega

theorem HeadersInside.eph_toNat {image : Image} {m : Mem} (h : HeadersInside image m binary) :
    (binary + ePhoff m binary + sizeofProghdr * ePhnum m binary).toNat =
      (binary + ePhoff m binary).toNat + 32 * (ePhnum m binary).toNat := by
  have hend := toNat_lt image.kend
  have htable := h.table
  have hsize : sizeofProghdr.toNat = 32 := rfl
  rw [UInt32.toNat_add, UInt32.toNat_mul, hsize, h.phoff_toNat]
  omega

/-- The headers of the program, read before its own page directory is loaded. -/
theorem KInv.elf_reads (h : KInv L all s) (hload : WindowLoaded L q s)
    (hheaders : HeadersInside L.image s.mem binary) :
    (vload32 binary).run s = .ok (kernWord s.mem binary, s) ∧
      (vload32 (binary + 28)).run s = .ok (ePhoff s.mem binary, s) ∧
      (vload16 (binary + 44)).run s = .ok (ePhnum s.mem binary, s) := by
  have hend := toNat_lt L.image.kend
  have hstart := hheaders.start
  have hheader := hheaders.header
  have haddr (i : Nat) (hi : i ≤ 48) : (binary + UInt32.ofNat i).toNat = binary.toNat + i :=
    add_ofNat_toNat (by omega)
  have h28 : (binary + 28).toNat = binary.toNat + 28 := haddr 28 (by omega)
  have h44 : (binary + 44).toNat = binary.toNat + 44 := haddr 44 (by omega)
  have hphnum := h.vload16_kernel (a := binary + 44) hload (by omega) (by omega)
  rw [h44] at hphnum
  exact ⟨h.vload32_kernel hload (by omega) (by omega),
    h.vload32_kernel hload (by omega) (by omega), hphnum⟩

/-- `load_icode` after its segments. -/
def loadIcodeEnd (e : Fin nenv) (binary : UInt32) : Kern Unit := do
  let eEntry ← vload32 (binary + 24)
  setEnv e fun env => { env with envTf := { env.envTf with tfEip := eEntry } }
  regionAlloc e (ustacktop - pgsize) pgsize
  lcr3 (← paddr (← Prog.read (·.kernPgdir)))

theorem loadIcode_ok {magic phoff phnum pa : UInt32}
    (hmagic : (vload32 binary).run s = .ok (magic, s))
    (hphoff : (vload32 (binary + 28)).run s = .ok (phoff, s))
    (hphnum : (vload16 (binary + 44)).run s = .ok (phnum, s))
    (hpgdir : (paddr (s.envs e).envPgdir).run s = .ok (pa, s)) {r : Unit × Machine} :
    (Jos.loadIcode e binary).run s = .ok r ↔ magic = elfMagic ∧
      (Jos.loadSegments e binary (binary + phoff + sizeofProghdr * phnum) phnum.toNat
        (binary + phoff) >>= fun _ => loadIcodeEnd e binary).run (s.loadPgdir pa) = .ok r := by
  unfold Jos.loadIcode
  rw [Prog.bind_of_ok hmagic]
  by_cases hfile : magic = elfMagic
  · rw [if_neg (not_not.mpr hfile), Prog.bind_of_ok hphoff, Prog.bind_of_ok hphnum]
    simp only [Prog.run_read_bind, hfile, true_and]
    rw [Prog.bind_of_ok hpgdir]
    rfl
  · rw [if_pos hfile]
    exact iff_of_false (panic_ne_ok _ _ _) fun h => hfile h.1

theorem loadIcodeEnd_ok {entry : UInt32} {r : Unit × Machine}
    (hentry : (vload32 (binary + 24)).run s = .ok (entry, s))
    (hpgdir : ∀ t, (Jos.regionAlloc e (ustacktop - pgsize) pgsize).run (s.withEntry e entry) =
      .ok ((), t) → t.kernPgdir = kva L.kd) (hkd : L.kd < 65536) :
    (loadIcodeEnd e binary).run s = .ok r ↔
      ∃ t, (Jos.regionAlloc e (ustacktop - pgsize) pgsize).run (s.withEntry e entry) = .ok ((), t) ∧
        r = ((), t.loadPgdir (page2pa L.kd)) := by
  unfold loadIcodeEnd
  rw [Prog.bind_of_ok hentry]
  simp only [setEnv, Prog.run_update_bind]
  change (Jos.regionAlloc e (ustacktop - pgsize) pgsize >>= fun _ => do
    lcr3 (← paddr (← Prog.read (·.kernPgdir)))).run (s.withEntry e entry) = .ok r ↔ _
  rw [Prog.bind_eq_ok]
  constructor
  · rintro ⟨⟨⟩, t, hrun, hlast⟩
    have hpa := paddr_of_eq_kva (s := t) (hpgdir t hrun) hkd
    rw [Prog.run_read_bind, Prog.bind_of_ok hpa] at hlast
    exact ⟨t, hrun, (Except.ok.inj hlast).symm⟩
  · rintro ⟨t, hrun, rfl⟩
    have hpa := paddr_of_eq_kva (s := t) (hpgdir t hrun) hkd
    refine ⟨(), t, hrun, ?_⟩
    rw [Prog.run_read_bind, Prog.bind_of_ok hpa]
    rfl

theorem KInv.loadIcode (h : KInv L all s) (hf : dirFrame s.envs e = some f)
    (hwindow : WindowLoaded L q s)
    (hnone : ∀ x : Slot, x.env = e → x ≠ .dir e → own s.mem s.envs x = none)
    (hheaders : HeadersInside L.image s.mem binary)
    (hbelow : ∀ hdr ∈ loadable s.mem binary, hdr.BelowUtop)
    (hrun : (Jos.loadIcode e binary).run s = .ok ((), s')) :
    IcodeLoaded L e f binary all s s' := by
  obtain ⟨hmagic, hphoff, hphnum⟩ := h.elf_reads hwindow hheaders
  have hkend := toNat_lt L.image.kend
  have hlo := hheaders.start
  have hph := hheaders.phoff_toNat
  have heph := hheaders.eph_toNat
  have htable := hheaders.table
  have hheader := hheaders.header
  have hsegments : loadable s.mem binary =
      (proghdrs s.mem (ePhnum s.mem binary).toNat (binary + ePhoff s.mem binary)).filter
        fun hdr => hdr.pType = elfProgLoad := rfl
  -- the values stay folded: they must not be computed
  generalize ePhoff s.mem binary = phoff at *
  generalize ePhnum s.mem binary = phnum at *
  generalize hword : kernWord s.mem binary = magic at *
  have hpgdir := paddr_of_eq_kva (s := s) (h.dir_kva hf) (h.dir_lt hf)
  obtain ⟨hfile, hload⟩ := (loadIcode_ok hmagic hphoff hphnum hpgdir).mp hrun
  obtain ⟨⟨⟩, s₁, hsegs, hend⟩ := Prog.bind_eq_ok.mp hload
  have hstart : GivenPages L e f all (s.loadPgdir (page2pa f)) (s.loadPgdir (page2pa f)) all :=
    GivenPages.refl (h.loadPgdir _) hf hnone
  obtain ⟨⟨fl₁, h₁⟩, hloaded⟩ := hstart.loadSegments _ rfl hlo (by omega) heph (by omega)
    (fun hdr hmem hpt => hbelow hdr (by
      rw [hsegments]
      exact List.mem_filter.mpr ⟨hmem, by simpa using hpt⟩)) hsegs
  have hentry : (vload32 (binary + 24)).run s₁ = .ok (eEntry s.mem binary, s₁) := by
    have haddr : (binary + 24).toNat = binary.toNat + 24 := add_ofNat_toNat (b := 24) (by omega)
    exact h₁.vload32_image rfl (by omega) (by omega)
  have hclosed := h₁.withEntry (eEntry s.mem binary)
  have hstack : (ustacktop - pgsize).toNat / 4096 + (pgsize.toNat + 4095) / 4096 ≤ 977920 := by
    decide
  have hkern : ∀ t, (Jos.regionAlloc e (ustacktop - pgsize) pgsize).run
      (s₁.withEntry e (eEntry s.mem binary)) = .ok ((), t) → t.kernPgdir = kva L.kd := by
    intro t ht
    obtain ⟨⟨fl', h'⟩, -⟩ := hclosed.regionAlloc hstack ht
    exact h'.inv.kernPgdir
  obtain ⟨t, halloc, hlast⟩ := (loadIcodeEnd_ok hentry hkern h.good.kd_lt').mp hend
  obtain ⟨⟨fl', h'⟩, hpage⟩ := hclosed.regionAlloc hstack halloc
  obtain ⟨-, rfl⟩ := Prod.mk.inj hlast
  refine ⟨?_, s₁, t, fl', ?_, hpage, h', rfl⟩
  · rw [hword, hfile]
  · rw [hsegments]
    exact hloaded

end Jos
