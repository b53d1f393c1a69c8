import Jos.GivenPages

/-!
What `load_icode` does to the environment it loads. The headers and the contents of the
program are in the kernel image, where nothing is written; the segments go to pages that
the environment is given.
-/

namespace Jos

structure Proghdr where
  pType : UInt32
  pOffset : UInt32
  pVa : UInt32
  pFilesz : UInt32
  pMemsz : UInt32
deriving DecidableEq

/-- The byte and the word that the window at `KERNBASE` shows at `a`. -/
def kernByte (m : Mem) (a : Nat) : UInt8 := m.byte (a - kernbase.toNat)

def kernWord (m : Mem) (a : UInt32) : UInt32 := wordOf fun k => kernByte m (a.toNat + k)

def ePhoff (m : Mem) (binary : UInt32) : UInt32 := kernWord m (binary + 28)

def ePhnum (m : Mem) (binary : UInt32) : UInt32 :=
  UInt32.ofNat ((kernByte m (binary.toNat + 44)).toNat +
    256 * (kernByte m (binary.toNat + 45)).toNat)

def proghdrAt (m : Mem) (ph : UInt32) : Proghdr :=
  ⟨kernWord m ph, kernWord m (ph + 4), kernWord m (ph + 8), kernWord m (ph + 16),
    kernWord m (ph + 20)⟩

/-- The `n` program headers from `ph` on. -/
def proghdrs (m : Mem) : Nat → UInt32 → List Proghdr
  | 0, _ => []
  | n + 1, ph => proghdrAt m ph :: proghdrs m n (ph + sizeofProghdr)

/-- The segments that `load_icode` loads. -/
def loadable (m : Mem) (binary : UInt32) : List Proghdr :=
  (proghdrs m (ePhnum m binary).toNat (binary + ePhoff m binary)).filter
    fun h => h.pType = elfProgLoad

/-- The headers of the program at `binary` lie in the kernel image. -/
structure HeadersInside (image : Image) (m : Mem) (binary : UInt32) : Prop where
  start : kernbase.toNat + extphysmem.toNat ≤ binary.toNat
  header : binary.toNat + 52 ≤ image.kend.toNat
  table : binary.toNat + (ePhoff m binary).toNat + 32 * (ePhnum m binary).toNat ≤
    image.kend.toNat

/-- The pages that `region_alloc` maps for the segment, if it is not empty, are below `UTOP`. -/
def Proghdr.BelowUtop (h : Proghdr) : Prop :=
  h.pMemsz ≠ 0 → h.pVa.toNat / 4096 + (h.pMemsz.toNat + 4095) / 4096 ≤ 977920

variable {L : Layout} {e : Fin nenv} {f n p q : Nat} {all fl : List Nat} {s₀ s s₁ s' : Machine}
  {va a : UInt32} {b : UInt8}

/-- A page directory that maps the window at `KERNBASE` is loaded. -/
structure WindowLoaded (L : Layout) (q : Nat) (s : Machine) : Prop where
  cr3 : s.cr3 = .pgdir (page2pa q)
  lt : q < 65536
  window : ∀ d : Fin 1024, 960 ≤ d.val → s.mem q d = L.kmem L.kd d

theorem KInv.windowLoaded (h : KInv L fl s) (hf : dirFrame s.envs e = some f)
    (hcr3 : s.cr3 = .pgdir (page2pa f)) : WindowLoaded L f s where
  cr3 := hcr3
  lt := h.dir_lt hf
  window d hd := h.tables.dirKernel e f hf d (le_trans (by decide) hd) (by
    rintro rfl
    exact absurd hd (by decide))

theorem KInv.windowLoaded_kern (h : KInv L fl s) (hcr3 : s.cr3 = .pgdir (page2pa L.kd)) :
    WindowLoaded L L.kd s where
  cr3 := hcr3
  lt := h.good.kd_lt'
  window d _ := congrFun (h.tables.kernel L.kd (.inl rfl)) d

theorem window_page (hva : 4026531840 ≤ va.toNat) :
    960 ≤ (pdxIdx va).val ∧
      ((pdxIdx va).val - 960) * 1024 + (ptxIdx va).val = (va.toNat - 4026531840) / 4096 := by
  have hlt := toNat_lt va
  simp only [pdxIdx, ptxIdx, pdx_toNat, ptx_toNat]
  omega

theorem KInv.xlat_kernel (h : KInv L fl s) (hload : WindowLoaded L q s)
    (hva : kernbase.toNat ≤ va.toNat) : s.xlat va false = some (va.toNat - kernbase.toNat) := by
  have hlt := toNat_lt va
  have hkb : kernbase.toNat = 4026531840 := rfl
  rw [hkb] at hva ⊢
  have hpage : (va.toNat - 4026531840) / 4096 < 1048576 := by omega
  have haddr : (va.toNat - 4026531840) / 4096 * 4096 + va.toNat % 4096 =
      va.toNat - 4026531840 := by omega
  obtain ⟨hd, hnumber⟩ := window_page hva
  have hframe : (page2pa q).toNat / 4096 = q := by
    rw [page2pa_toNat (lt_trans hload.lt (by decide))]
    exact Nat.mul_div_cancel q (by decide)
  have hread {v : UInt32} (hv : present v) : allows v false false := ⟨hv, by simp, by simp⟩
  obtain ⟨g, hkpt, hpte⟩ := h.good.window (pdxIdx va) (ptxIdx va) hd
  have hentry := hkpt
  unfold Layout.kpt at hentry
  split at hentry
  · obtain ⟨hpde, hg⟩ := entryFrame_eq_some.mp hentry
    have htable := congrFun (h.tables.kernel g (.inr ⟨_, hkpt⟩)) (ptxIdx va)
    rw [hnumber, UInt32.or_assoc] at hpte
    simp only [Machine.xlat, hload.cr3, hframe, Machine.walk]
    rw [hload.window _ hd, if_pos (hread hpde), hg, htable, hpte, if_pos (hread ?_),
      pteAddr_eq_page2pa, frameOf_entry hpage (by decide), page2pa_toNat hpage, pgoff_toNat, haddr]
    rw [present_entry hpage]
    decide
  · cases hentry

theorem KInv.vloadByte_kernel (h : KInv L fl s) (hload : WindowLoaded L q s)
    (hva : kernbase.toNat ≤ va.toNat) :
    (vloadByte va).run s = .ok (kernByte s.mem va.toNat, s) := by
  simp only [vloadByte, Prog.run_read_bind, id, h.xlat_kernel hload hva]
  rfl

theorem KInv.vload32_kernel (h : KInv L fl s) (hload : WindowLoaded L q s)
    (hlo : kernbase.toNat ≤ a.toNat) (hhi : a.toNat + 4 ≤ 4294967296) :
    (vload32 a).run s = .ok (kernWord s.mem a, s) := by
  have h1 : (a + 1).toNat = a.toNat + 1 := add_ofNat_toNat (b := 1) (by omega)
  have h2 : (a + 2).toNat = a.toNat + 2 := add_ofNat_toNat (b := 2) (by omega)
  have h3 : (a + 3).toNat = a.toNat + 3 := add_ofNat_toNat (b := 3) (by omega)
  unfold vload32
  rw [Prog.bind_of_ok (h.vloadByte_kernel hload hlo),
    Prog.bind_of_ok (h.vloadByte_kernel hload (by omega)),
    Prog.bind_of_ok (h.vloadByte_kernel hload (by omega)),
    Prog.bind_of_ok (h.vloadByte_kernel hload (by omega)), h1, h2, h3]
  rfl

theorem KInv.vload16_kernel (h : KInv L fl s) (hload : WindowLoaded L q s)
    (hlo : kernbase.toNat ≤ a.toNat) (hhi : a.toNat + 2 ≤ 4294967296) :
    (vload16 a).run s = .ok (UInt32.ofNat ((kernByte s.mem a.toNat).toNat +
      256 * (kernByte s.mem (a.toNat + 1)).toNat), s) := by
  have h1 : (a + 1).toNat = a.toNat + 1 := add_ofNat_toNat (b := 1) (by omega)
  unfold vload16
  rw [Prog.bind_of_ok (h.vloadByte_kernel hload hlo),
    Prog.bind_of_ok (h.vloadByte_kernel hload (by omega)), h1]
  rfl

theorem panic_ne_ok {α : Type} (msg : String) (s : Machine) (r : α × Machine) :
    (panic msg : Kern α).run s ≠ .ok r := by
  intro h
  cases h

theorem vloadByte_state (hrun : (vloadByte va).run s = .ok (b, s')) : s' = s := by
  simp only [vloadByte, Prog.run_read_bind] at hrun
  split at hrun
  · cases hrun
    rfl
  · cases hrun

/-- The bytes `c` for the first `n` addresses and `c'` for those behind. -/
def joined (n : Nat) (c c' : Nat → UInt8) : Nat → UInt8 := fun k =>
  if k < n then c k else c' (k - n)

theorem bytesAt_cases (d a : UInt32) (n m : Nat) (c c' : Nat → UInt8)
    (hend : d.toNat + (n + m) ≤ utop.toNat) :
    (bytesAt d n c a = none ∧ bytesAt (d + UInt32.ofNat n) m c' a = none ∧
      bytesAt d (n + m) (joined n c c') a = none) ∨
    (bytesAt d n c a = none ∧
      bytesAt (d + UInt32.ofNat n) m c' a = bytesAt d (n + m) (joined n c c') a) ∨
    bytesAt d n c a = bytesAt d (n + m) (joined n c c') a ∧
      bytesAt (d + UInt32.ofNat n) m c' a = none := by
  have hutop : utop.toNat = 4005560320 := rfl
  have hnext : (d + UInt32.ofNat n).toNat = d.toNat + n := add_ofNat_toNat (by omega)
  simp only [bytesAt, hnext]
  by_cases hin : d.toNat ≤ a.toNat ∧ a.toNat < d.toNat + (n + m)
  · by_cases hfirst : a.toNat < d.toNat + n
    · have hleft : d.toNat ≤ a.toNat ∧ a.toNat < d.toNat + n := ⟨hin.1, hfirst⟩
      have hright : ¬ (d.toNat + n ≤ a.toNat ∧ a.toNat < d.toNat + n + m) := by omega
      have hindex : a.toNat - d.toNat < n := by omega
      refine .inr (.inr ⟨?_, if_neg hright⟩)
      rw [if_pos hleft, if_pos hin, joined, if_pos hindex]
    · have hleft : ¬ (d.toNat ≤ a.toNat ∧ a.toNat < d.toNat + n) := by omega
      have hright : d.toNat + n ≤ a.toNat ∧ a.toNat < d.toNat + n + m := by omega
      have hindex : ¬ a.toNat - d.toNat < n := by omega
      refine .inr (.inl ⟨if_neg hleft, ?_⟩)
      rw [if_pos hright, if_pos hin, joined, if_neg hindex, Nat.sub_sub]
  · have hleft : ¬ (d.toNat ≤ a.toNat ∧ a.toNat < d.toNat + n) := by omega
    have hright : ¬ (d.toNat + n ≤ a.toNat ∧ a.toNat < d.toNat + n + m) := by omega
    exact .inl ⟨if_neg hleft, if_neg hright, if_neg hin⟩

theorem Stored.empty (c : Nat → UInt8) : Stored f (bytesAt va 0 c) s s where
  dir := rfl
  mapped _ _ := rfl
  here a _ b hb := by
    rw [bytesAt, if_neg (by omega)] at hb
    cases hb
  other _ _ _ := rfl
  frame _ _ := rfl

/-- First the bytes from `d` on, and then those behind. -/
theorem Stored.append {d : UInt32} {m : Nat} {c c' : Nat → UInt8}
    (h : Stored f (bytesAt d n c) s s₁) (h' : Stored f (bytesAt (d + UInt32.ofNat n) m c') s₁ s')
    (hend : d.toNat + (n + m) ≤ utop.toNat) :
    Stored f (bytesAt d (n + m) (joined n c c')) s s' := by
  have hboth : (fun a => (bytesAt (d + UInt32.ofNat n) m c' a).or (bytesAt d n c a)) =
      bytesAt d (n + m) (joined n c c') := by
    funext a
    rcases bytesAt_cases d a n m c c' hend with ⟨hl, hr, hnone⟩ | ⟨hl, hr⟩ | ⟨hl, hr⟩
    · rw [hl, hr, hnone, Option.none_or]
    · rw [hl, hr, Option.or_none]
    · rw [hl, hr, Option.none_or]
  exact hboth ▸ h.trans h'

/-- First the bytes behind, and then those from `d` on. -/
theorem Stored.prepend {d : UInt32} {m : Nat} {c c' : Nat → UInt8}
    (h : Stored f (bytesAt (d + UInt32.ofNat n) m c') s s₁) (h' : Stored f (bytesAt d n c) s₁ s')
    (hend : d.toNat + (n + m) ≤ utop.toNat) :
    Stored f (bytesAt d (n + m) (joined n c c')) s s' := by
  have hboth : (fun a => (bytesAt d n c a).or (bytesAt (d + UInt32.ofNat n) m c' a)) =
      bytesAt d (n + m) (joined n c c') := by
    funext a
    rcases bytesAt_cases d a n m c c' hend with ⟨hl, hr, hnone⟩ | ⟨hl, hr⟩ | ⟨hl, hr⟩
    · rw [hl, hr, hnone, Option.none_or]
    · rw [hl, hr, Option.none_or]
    · rw [hl, hr, Option.or_none]
  exact hboth ▸ h.trans h'

namespace GivenPages

variable {d src : UInt32} {c : UInt8}

theorem windowLoaded (h : GivenPages L e f all s₀ s fl) (hcr3 : s₀.cr3 = .pgdir (page2pa f)) :
    WindowLoaded L f s :=
  h.inv.windowLoaded h.dirFrame (h.rest.cr3.trans hcr3)

/-- Nothing is written to the kernel image. -/
theorem image_byte (h : GivenPages L e f all s₀ s fl) {a : Nat}
    (hlo : kernbase.toNat + extphysmem.toNat ≤ a) (hhi : a < L.image.kend.toNat) :
    kernByte s.mem a = kernByte s₀.mem a := by
  have hkb : kernbase.toNat = 4026531840 := rfl
  have hext : extphysmem.toNat = 1048576 := rfl
  have hresv : L.resv ((a - kernbase.toNat) / 4096) :=
    h.inv.good.image_resv _ (by omega) (by omega)
  have hall : (a - kernbase.toNat) / 4096 ∉ all := fun hmem =>
    (h.start.free_managed hmem).2 hresv
  have hf : (a - kernbase.toNat) / 4096 ≠ f := by
    intro heq
    have hdir : own s.mem s.envs (.dir e) = some f := h.dirFrame
    exact (h.inv.owned_managed hdir).2 (heq ▸ hresv)
  rw [kernByte, kernByte, Mem.byte, Mem.byte, h.frame _ hall hf]

theorem image_word (h : GivenPages L e f all s₀ s fl)
    (hlo : kernbase.toNat + extphysmem.toNat ≤ a.toNat)
    (hhi : a.toNat + 4 ≤ L.image.kend.toNat) : kernWord s.mem a = kernWord s₀.mem a := by
  apply wordOf_congr
  intro k hk
  exact h.image_byte (by omega) (by omega)

/-- The headers can be read at any time. -/
theorem vload32_image (h : GivenPages L e f all s₀ s fl) (hcr3 : s₀.cr3 = .pgdir (page2pa f))
    (hlo : kernbase.toNat + extphysmem.toNat ≤ a.toNat)
    (hhi : a.toNat + 4 ≤ L.image.kend.toNat) :
    (vload32 a).run s = .ok (kernWord s₀.mem a, s) := by
  have hend := toNat_lt L.image.kend
  rw [h.inv.vload32_kernel (h.windowLoaded hcr3) (by omega) (by omega), h.image_word hlo hhi]

theorem vstoreByte (h : GivenPages L e f all s₀ s fl) (hcr3 : s₀.cr3 = .pgdir (page2pa f))
    (hva : va < utop) (hrun : (vstoreByte va b).run s = .ok ((), s')) :
    GivenPages L e f all s₀ s' fl ∧ Stored f (bytesAt va 1 fun _ => b) s s' := by
  have hload := h.windowLoaded hcr3
  have hframe : (page2pa f).toNat / 4096 = f := by
    rw [page2pa_toNat (lt_trans hload.lt (by decide))]
    exact Nat.mul_div_cancel f (by decide)
  simp only [Jos.vstoreByte, Prog.run_read_bind, id, Machine.xlat, hload.cr3, hframe] at hrun
  split at hrun
  · rename_i pa hwalk
    cases hrun
    exact h.store hva hwalk b
  · cases hrun

/-- `R k` holds of every byte that is read for place `k`. -/
theorem copyForward (R : Nat → UInt8 → Prop) (n : Nat) {d src : UInt32} {s : Machine}
    (h : GivenPages L e f all s₀ s fl) (hcr3 : s₀.cr3 = .pgdir (page2pa f))
    (hend : d.toNat + n ≤ utop.toNat)
    (hread : ∀ k < n, ∀ t b t', GivenPages L e f all s₀ t fl →
      (vloadByte (src + UInt32.ofNat k)).run t = .ok (b, t') → R k b)
    (hrun : (Jos.copyForward d src n).run s = .ok ((), s')) :
    GivenPages L e f all s₀ s' fl ∧
      ∃ c, Stored f (bytesAt d n c) s s' ∧ ∀ k < n, R k (c k) := by
  induction n generalizing R d src s with
  | zero =>
    cases hrun
    exact ⟨h, fun _ => 0, Stored.empty _, fun k hk => absurd hk (by omega)⟩
  | succ n ih =>
    have hutop : utop.toNat = 4005560320 := rfl
    have hnext : (d + 1).toNat = d.toNat + 1 := add_ofNat_toNat (b := 1) (by omega)
    obtain ⟨b, s₁, hload, hrest⟩ := Prog.bind_eq_ok.mp hrun
    obtain rfl := vloadByte_state hload
    obtain ⟨⟨⟩, s₂, hstore, hrest⟩ := Prog.bind_eq_ok.mp hrest
    have hd : d < utop := by
      rw [UInt32.lt_iff_toNat_lt]
      omega
    obtain ⟨h₂, hstored⟩ := h.vstoreByte hcr3 hd hstore
    have hshift (k : Nat) : src + 1 + UInt32.ofNat k = src + UInt32.ofNat (k + 1) := by
      rw [UInt32.add_assoc, UInt32.ofNat_add, UInt32.add_comm 1]
      rfl
    obtain ⟨hgiven, c, hmore, hc⟩ := ih (fun k => R (k + 1)) h₂ (by omega)
      (fun k hk t b t' ht hb => hread (k + 1) (by omega) t b t' ht (by rw [← hshift]; exact hb))
      hrest
    have happend := Stored.append hstored hmore (by omega : d.toNat + (1 + n) ≤ utop.toNat)
    rw [Nat.add_comm 1 n] at happend
    refine ⟨hgiven, _, happend, ?_⟩
    intro k hk
    cases k with
    | zero =>
      refine hread 0 (by omega) s₁ b s₁ h ?_
      have hzero : src + UInt32.ofNat 0 = src := UInt32.add_zero src
      rw [hzero]
      exact hload
    | succ k => exact hc k (by omega)

theorem copyBackward (R : Nat → UInt8 → Prop) (n : Nat) {s : Machine}
    (h : GivenPages L e f all s₀ s fl) (hcr3 : s₀.cr3 = .pgdir (page2pa f))
    (hend : d.toNat + n ≤ utop.toNat)
    (hread : ∀ k < n, ∀ t b t', GivenPages L e f all s₀ t fl →
      (vloadByte (src + UInt32.ofNat k)).run t = .ok (b, t') → R k b)
    (hrun : (Jos.copyBackward d src n).run s = .ok ((), s')) :
    GivenPages L e f all s₀ s' fl ∧
      ∃ c, Stored f (bytesAt d n c) s s' ∧ ∀ k < n, R k (c k) := by
  induction n generalizing s with
  | zero =>
    cases hrun
    exact ⟨h, fun _ => 0, Stored.empty _, fun k hk => absurd hk (by omega)⟩
  | succ n ih =>
    have hutop : utop.toNat = 4005560320 := rfl
    have hlast : (d + UInt32.ofNat n).toNat = d.toNat + n := add_ofNat_toNat (by omega)
    obtain ⟨b, s₁, hload, hrest⟩ := Prog.bind_eq_ok.mp hrun
    obtain rfl := vloadByte_state hload
    obtain ⟨⟨⟩, s₂, hstore, hrest⟩ := Prog.bind_eq_ok.mp hrest
    have hd : d + UInt32.ofNat n < utop := by
      rw [UInt32.lt_iff_toNat_lt]
      omega
    obtain ⟨h₂, hstored⟩ := h.vstoreByte hcr3 hd hstore
    obtain ⟨hgiven, c, hmore, hc⟩ := ih h₂ (by omega) (fun k hk => hread k (by omega)) hrest
    refine ⟨hgiven, _, Stored.prepend hstored hmore hend, ?_⟩
    intro k hk
    unfold joined
    by_cases hkn : k < n
    · rw [if_pos hkn]
      exact hc k hkn
    · obtain rfl : k = n := by omega
      rw [if_neg hkn]
      exact hread k hk s₁ b s₁ h hload

theorem memcpy (R : Nat → UInt8 → Prop) {n : UInt32} (h : GivenPages L e f all s₀ s fl)
    (hcr3 : s₀.cr3 = .pgdir (page2pa f)) (hend : d.toNat + n.toNat ≤ utop.toNat)
    (hread : ∀ k < n.toNat, ∀ t b t', GivenPages L e f all s₀ t fl →
      (vloadByte (src + UInt32.ofNat k)).run t = .ok (b, t') → R k b)
    (hrun : (Jos.memcpy d src n).run s = .ok ((), s')) :
    GivenPages L e f all s₀ s' fl ∧
      ∃ c, Stored f (bytesAt d n.toNat c) s s' ∧ ∀ k < n.toNat, R k (c k) := by
  unfold Jos.memcpy memmove at hrun
  split at hrun
  · exact h.copyBackward R _ hcr3 hend hread hrun
  · exact h.copyForward R _ hcr3 hend hread hrun

theorem memsetLoop (n : Nat) {d : UInt32} {s : Machine} (h : GivenPages L e f all s₀ s fl)
    (hcr3 : s₀.cr3 = .pgdir (page2pa f)) (hend : d.toNat + n ≤ utop.toNat)
    (hrun : (Jos.memsetLoop d c n).run s = .ok ((), s')) :
    GivenPages L e f all s₀ s' fl ∧ Stored f (bytesAt d n fun _ => c) s s' := by
  induction n generalizing d s with
  | zero =>
    cases hrun
    exact ⟨h, Stored.empty _⟩
  | succ n ih =>
    have hutop : utop.toNat = 4005560320 := rfl
    have hnext : (d + 1).toNat = d.toNat + 1 := add_ofNat_toNat (b := 1) (by omega)
    obtain ⟨⟨⟩, s₁, hstore, hrest⟩ := Prog.bind_eq_ok.mp hrun
    have hd : d < utop := by
      rw [UInt32.lt_iff_toNat_lt]
      omega
    obtain ⟨h₁, hstored⟩ := h.vstoreByte hcr3 hd hstore
    obtain ⟨hgiven, hmore⟩ := ih h₁ (by omega) hrest
    have happend := Stored.append hstored hmore (by omega : d.toNat + (1 + n) ≤ utop.toNat)
    have hsame : joined 1 (fun _ => c) (fun _ => c) = fun _ => c := funext fun k => ite_self c
    rw [Nat.add_comm 1 n, hsame] at happend
    exact ⟨hgiven, happend⟩

theorem regionAlloc {len : UInt32} (h : GivenPages L e f all s₀ s fl)
    (hend : va.toNat / 4096 + (len.toNat + 4095) / 4096 ≤ 977920)
    (hrun : (Jos.regionAlloc e va len).run s = .ok ((), s')) :
    (∃ fl', GivenPages L e f all s₀ s' fl') ∧
      PagesGiven f (va.toNat / 4096) ((len.toNat + 4095) / 4096) s s' := by
  have hutop : utop.toNat = 4005560320 := rfl
  rw [regionAlloc_loop (by omega)] at hrun
  exact h.regionLoop _ (by omega) hrun

/-- The user's part ends with pages that nobody may write. -/
theorem vstoreByte_above (h : GivenPages L e f all s₀ s fl) (hcr3 : s₀.cr3 = .pgdir (page2pa f))
    (hlo : utop.toNat ≤ va.toNat) (hhi : va.toNat < utop.toNat + 4096) (r : Unit × Machine) :
    (Jos.vstoreByte va b).run s ≠ .ok r := by
  have hutop : utop.toNat = 4005560320 := rfl
  have hload := h.windowLoaded hcr3
  have hframe : (page2pa f).toNat / 4096 = f := by
    rw [page2pa_toNat (lt_trans hload.lt (by decide))]
    exact Nat.mul_div_cancel f (by decide)
  have hd : (pdxIdx va).val = 955 := by
    simp only [pdxIdx, pdx_toNat]
    omega
  have hkernel : userPdes ≤ (pdxIdx va).val ∧ pdxIdx va ≠ uvptIdx := by
    refine ⟨le_of_eq hd.symm, ?_⟩
    intro heq
    rw [heq] at hd
    cases hd
  have hpde := h.inv.tables.dirKernel e f h.dirFrame (pdxIdx va) hkernel.1 hkernel.2
  have hwalk : s.walk f va true false = none := by
    simp only [Machine.walk, hpde]
    by_cases hpresent : allows (L.kmem L.kd (pdxIdx va)) true false
    · have hkpt : L.kpt (pdxIdx va) = some (frameOf (L.kmem L.kd (pdxIdx va))) := by
        rw [Layout.kpt, if_pos hkernel]
        exact entryFrame_eq_some.mpr ⟨hpresent.1, rfl⟩
      have hread := h.inv.good.readonly _ _ (ptxIdx va) hkpt (by omega)
      rw [if_pos hpresent, h.inv.tables.kernel _ (.inr ⟨_, hkpt⟩), if_neg hread]
    · rw [if_neg hpresent]
  simp only [Jos.vstoreByte, Prog.run_read_bind, id, Machine.xlat, hload.cr3, hframe, hwalk]
  intro hrun
  cases hrun

/-- Stores that begin below `UTOP` and reach beyond it do not come to an end. -/
theorem copyForward_above (n : Nat) {d src : UInt32} {s : Machine}
    (h : GivenPages L e f all s₀ s fl) (hcr3 : s₀.cr3 = .pgdir (page2pa f))
    (hlo : d.toNat ≤ utop.toNat) (hhi : utop.toNat < d.toNat + n)
    (hend : d.toNat + n ≤ utop.toNat + 4096) : (Jos.copyForward d src n).run s ≠ .ok ((), s') := by
  induction n generalizing d src s with
  | zero => omega
  | succ n ih =>
    have hutop : utop.toNat = 4005560320 := rfl
    have hnext : (d + 1).toNat = d.toNat + 1 := add_ofNat_toNat (b := 1) (by omega)
    intro hrun
    obtain ⟨b, s₁, hload, hrest⟩ := Prog.bind_eq_ok.mp hrun
    obtain rfl := vloadByte_state hload
    obtain ⟨⟨⟩, s₂, hstore, hrest⟩ := Prog.bind_eq_ok.mp hrest
    by_cases hd : d.toNat = utop.toNat
    · exact h.vstoreByte_above hcr3 (by omega) (by omega) _ hstore
    · have hva : d < utop := by
        rw [UInt32.lt_iff_toNat_lt]
        omega
      exact ih (h.vstoreByte hcr3 hva hstore).1 (by omega) (by omega) (by omega) hrest

theorem copyBackward_above (n : Nat) {s : Machine} (h : GivenPages L e f all s₀ s fl)
    (hcr3 : s₀.cr3 = .pgdir (page2pa f)) (hlo : d.toNat ≤ utop.toNat)
    (hhi : utop.toNat < d.toNat + n) (hend : d.toNat + n ≤ utop.toNat + 4096) :
    (Jos.copyBackward d src n).run s ≠ .ok ((), s') := by
  cases n with
  | zero => omega
  | succ n =>
    have hutop : utop.toNat = 4005560320 := rfl
    have hlast : (d + UInt32.ofNat n).toNat = d.toNat + n := add_ofNat_toNat (by omega)
    intro hrun
    obtain ⟨b, s₁, hload, hrest⟩ := Prog.bind_eq_ok.mp hrun
    obtain rfl := vloadByte_state hload
    obtain ⟨⟨⟩, s₂, hstore, hrest⟩ := Prog.bind_eq_ok.mp hrest
    exact h.vstoreByte_above hcr3 (by omega) (by omega) _ hstore

theorem memcpy_above {n : UInt32} (h : GivenPages L e f all s₀ s fl)
    (hcr3 : s₀.cr3 = .pgdir (page2pa f)) (hlo : d.toNat ≤ utop.toNat)
    (hhi : utop.toNat < d.toNat + n.toNat) (hend : d.toNat + n.toNat ≤ utop.toNat + 4096) :
    (Jos.memcpy d src n).run s ≠ .ok ((), s') := by
  unfold Jos.memcpy memmove
  split
  · exact h.copyBackward_above _ hcr3 hlo hhi hend
  · exact h.copyForward_above _ hcr3 hlo hhi hend

theorem memsetLoop_above (n : Nat) {d : UInt32} {s : Machine} (h : GivenPages L e f all s₀ s fl)
    (hcr3 : s₀.cr3 = .pgdir (page2pa f)) (hlo : d.toNat ≤ utop.toNat)
    (hhi : utop.toNat < d.toNat + n) (hend : d.toNat + n ≤ utop.toNat + 4096) :
    (Jos.memsetLoop d c n).run s ≠ .ok ((), s') := by
  induction n generalizing d s with
  | zero => omega
  | succ n ih =>
    have hutop : utop.toNat = 4005560320 := rfl
    have hnext : (d + 1).toNat = d.toNat + 1 := add_ofNat_toNat (b := 1) (by omega)
    intro hrun
    obtain ⟨⟨⟩, s₁, hstore, hrest⟩ := Prog.bind_eq_ok.mp hrun
    by_cases hd : d.toNat = utop.toNat
    · exact h.vstoreByte_above hcr3 (by omega) (by omega) _ hstore
    · have hva : d < utop := by
        rw [UInt32.lt_iff_toNat_lt]
        omega
      exact ih (h.vstoreByte hcr3 hva hstore).1 (by omega) (by omega) (by omega) hrest

end GivenPages

end Jos
