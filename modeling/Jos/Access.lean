import Jos.Pmap

/-!
What loads, stores and page table entries amount to in terms of page frames.
`kva f` is where the kernel window shows frame `f` and `wordPtr f i` points to
word `i` of that frame. Entries are built as a frame address with flags below
4096; the lemmas take them apart again.
-/

namespace Jos

/-- The address of frame `f` in the kernel window. -/
def kva (f : Nat) : UInt32 := UInt32.ofNat (4026531840 + f * 4096)

/-- The pointer to word `i` of frame `f` in the kernel window. -/
def wordPtr (f : Nat) (i : Fin 1024) : UInt32 :=
  UInt32.ofNat (4026531840 + f * 4096 + i.val * 4)

/-- Frame `f` lies in the kernel window. -/
def InWindow (s : Machine) (f : Nat) : Prop := (f + 1) * 4096 ≤ s.window

instance (s : Machine) (f : Nat) : Decidable (InWindow s f) :=
  inferInstanceAs (Decidable (_ ≤ _))

theorem window_le (s : Machine) : s.window ≤ 268435456 := by
  unfold Machine.window
  split <;> omega

theorem InWindow.lt {s : Machine} {f : Nat} (h : InWindow s f) : f < 65536 := by
  have hw := window_le s
  unfold InWindow at h
  omega

theorem inWindow_of_pgdir {s : Machine} {pa : UInt32} {f : Nat} (hcr3 : s.cr3 = .pgdir pa)
    (hf : f < 65536) : InWindow s f := by
  simp only [InWindow, Machine.window, hcr3]
  omega

theorem kernbase_toNat : kernbase.toNat = 4026531840 := rfl

theorem kva_toNat {f : Nat} (hf : f < 65536) :
    (kva f).toNat = 4026531840 + f * 4096 := by
  rw [kva, UInt32.toNat_ofNat']
  omega

theorem kva_ne_zero {f : Nat} (hf : f < 65536) : kva f ≠ 0 := by
  intro h
  have hnat := congrArg UInt32.toNat h
  rw [kva_toNat hf] at hnat
  change _ = 0 at hnat
  omega

theorem wordPtr_toNat {f : Nat} (i : Fin 1024) (hf : f < 65536) :
    (wordPtr f i).toNat = 4026531840 + f * 4096 + i.val * 4 := by
  have hi := i.isLt
  rw [wordPtr, UInt32.toNat_ofNat']
  omega

theorem entryPtr_kva {f : Nat} (hf : f < 65536) (i : UInt32) (hi : i.toNat < 1024) :
    entryPtr (kva f) i = wordPtr f ⟨i.toNat, hi⟩ := by
  apply UInt32.toNat_inj.mp
  have hfour : (4 * i).toNat = 4 * i.toNat := by
    rw [UInt32.toNat_mul]
    change 4 * i.toNat % _ = _
    omega
  rw [wordPtr_toNat _ hf, entryPtr, UInt32.toNat_add, hfour, kva_toNat hf]
  change _ = 4026531840 + f * 4096 + i.toNat * 4
  omega

theorem entryPtr_pdx {f : Nat} (hf : f < 65536) (va : UInt32) :
    entryPtr (kva f) (pdx va) = wordPtr f (pdxIdx va) :=
  entryPtr_kva hf (pdx va) (pdx_lt va)

theorem entryPtr_ptx {f : Nat} (hf : f < 65536) (va : UInt32) :
    entryPtr (kva f) (ptx va) = wordPtr f (ptxIdx va) :=
  entryPtr_kva hf (ptx va) (ptx_lt va)

theorem entryPtr_ofNat {f : Nat} (hf : f < 65536) (i : Fin 1024) :
    entryPtr (kva f) (UInt32.ofNat i.val) = wordPtr f i := by
  have hi := i.isLt
  have hnat : (UInt32.ofNat i.val).toNat = i.val := by
    rw [UInt32.toNat_ofNat']
    omega
  rw [entryPtr_kva hf _ (by omega)]
  congr 1
  exact Fin.ext hnat

theorem kernPa_of_window {s : Machine} {va : UInt32} {off : Nat} (write : Bool)
    (hva : va.toNat = 4026531840 + off) (hoff : off < s.window) :
    s.kernPa write va = some off := by
  have hsub : va.toNat - kernbase.toNat = off := by
    rw [kernbase_toNat]
    omega
  have hge : kernbase.toNat ≤ va.toNat := by
    rw [kernbase_toNat]
    omega
  simp only [Machine.kernPa, hsub]
  simp [hge, hoff]

theorem kernPa_wordPtr {s : Machine} {f : Nat} (write : Bool) (i : Fin 1024)
    (hf : InWindow s f) : s.kernPa write (wordPtr f i) = some (f * 4096 + i.val * 4) := by
  have hi := i.isLt
  apply kernPa_of_window
  · rw [wordPtr_toNat i hf.lt]
    omega
  · unfold InWindow at hf
    omega

theorem kernPa_kva {s : Machine} {f : Nat} (write : Bool) (hf : InWindow s f) :
    s.kernPa write (kva f) = some (f * 4096) := by
  apply kernPa_of_window
  · rw [kva_toNat hf.lt]
  · unfold InWindow at hf
    omega

theorem wordIdx_word (f : Nat) (i : Fin 1024) : wordIdx (f * 4096 + i.val * 4) = i := by
  have hi := i.isLt
  apply Fin.ext
  simp only [wordIdx]
  omega

theorem frame_word (f : Nat) (i : Fin 1024) : (f * 4096 + i.val * 4) / 4096 = f := by
  have hi := i.isLt
  omega

theorem kload_wordPtr {s : Machine} {f : Nat} (i : Fin 1024) (hf : InWindow s f) :
    (kload (wordPtr f i)).run s = .ok (s.mem f i, s) := by
  simp only [kload, Prog.run_read_bind, id, kernPa_wordPtr false i hf]
  rw [Prog.run_pure, frame_word, wordIdx_word]

theorem kstore_wordPtr {s : Machine} {f : Nat} (i : Fin 1024) (v : UInt32)
    (hf : InWindow s f) :
    (kstore (wordPtr f i) v).run s = .ok ((), s.setMem (s.mem.setWord f i v)) := by
  simp only [kstore, Prog.run_read_bind, id, kernPa_wordPtr true i hf]
  rw [Prog.run_update, frame_word, wordIdx_word]

theorem byteOf_lt (w : UInt32) (k : Nat) : (byteOf w k).toNat = w.toNat / 256 ^ k % 256 := by
  simp [byteOf]

theorem wordOf_byteOf (w : UInt32) : (wordOf fun k => byteOf w k) = w := by
  have hw := toNat_lt w
  apply UInt32.toNat_inj.mp
  rw [wordOf, UInt32.toNat_ofNat']
  simp only [byteOf_lt]
  norm_num
  omega

theorem byteOf_wordOf (b : Nat → UInt8) (k : Nat) (hk : k < 4) :
    byteOf (wordOf b) k = b k := by
  apply UInt8.toNat_inj.mp
  rw [byteOf_lt, wordOf, UInt32.toNat_ofNat']
  have h0 := (b 0).toNat_lt
  have h1 := (b 1).toNat_lt
  have h2 := (b 2).toNat_lt
  have h3 := (b 3).toNat_lt
  obtain rfl | rfl | rfl | rfl : k = 0 ∨ k = 1 ∨ k = 2 ∨ k = 3 := by omega
  all_goals norm_num
  all_goals omega

theorem wordOf_congr {b c : Nat → UInt8} (h : ∀ k < 4, b k = c k) : wordOf b = wordOf c := by
  simp only [wordOf, h 0 (by omega), h 1 (by omega), h 2 (by omega), h 3 (by omega)]

namespace Mem

@[simp] theorem setWord_same (m : Mem) (f : Nat) (i : Fin 1024) (v : UInt32) :
    m.setWord f i v f i = v := by
  simp [setWord]

theorem setWord_of_ne (m : Mem) {f g : Nat} {i j : Fin 1024} (v : UInt32)
    (h : g = f → j ≠ i) : m.setWord f i v g j = m g j := by
  unfold setWord
  rw [if_neg]
  rintro ⟨hg, hj⟩
  exact h hg hj

theorem setWord_frame (m : Mem) {f g : Nat} (i : Fin 1024) (v : UInt32) (h : g ≠ f) :
    m.setWord f i v g = m g := by
  funext j
  exact setWord_of_ne m v (fun hg => absurd hg h)

@[simp] theorem zeroFrame_same (m : Mem) (f : Nat) (i : Fin 1024) : m.zeroFrame f f i = 0 := by
  simp [zeroFrame]

theorem zeroFrame_frame (m : Mem) {f g : Nat} (h : g ≠ f) : m.zeroFrame f g = m g := by
  funext j
  simp [zeroFrame, h]

@[simp] theorem copyFrame_same (m : Mem) (dst src : Nat) : m.copyFrame dst src dst = m src := by
  funext j
  simp [copyFrame]

theorem copyFrame_frame (m : Mem) {dst g : Nat} (src : Nat) (h : g ≠ dst) :
    m.copyFrame dst src g = m g := by
  funext j
  simp [copyFrame, h]

theorem setByte_frame (m : Mem) {pa g : Nat} (b : UInt8) (h : g ≠ pa / 4096) :
    m.setByte pa b g = m g :=
  setWord_frame m _ _ h

/-- Clearing the 4096 bytes of a frame clears its words. -/
theorem fill_page (m : Mem) (f : Nat) : m.fill (f * 4096) 4096 0 = m.zeroFrame f := by
  funext g i
  have hi := i.isLt
  by_cases hg : g = f
  · subst hg
    have hzero : (wordOf fun _ => 0) = (0 : UInt32) := rfl
    rw [zeroFrame_same, fill, ← hzero]
    apply wordOf_congr
    intro k hk
    rw [if_pos (by omega)]
  · rw [zeroFrame_frame m hg, fill, ← wordOf_byteOf (m g i)]
    apply wordOf_congr
    intro k hk
    rw [if_neg, wordOf_byteOf]
    rintro ⟨hlo, hhi⟩
    apply hg
    omega

end Mem

theorem kmemset_page {s : Machine} {f : Nat} (hf : InWindow s f) :
    (kmemset (kva f) 0 pgsize.toNat).run s = .ok ((), s.setMem (s.mem.zeroFrame f)) := by
  have hsize : pgsize.toNat = 4096 := rfl
  have hfit : f * 4096 + 4096 ≤ s.window := by
    unfold InWindow at hf
    omega
  simp only [kmemset, Prog.run_read_bind, id, hsize, kernPa_kva true hf]
  simp [hfit, Mem.fill_page]

theorem kcopyPage_kva {s : Machine} {d f : Nat} (hd : InWindow s d) (hf : InWindow s f) :
    (kcopyPage (kva d) (kva f)).run s = .ok ((), s.setMem (s.mem.copyFrame d f)) := by
  simp only [kcopyPage, Prog.run_read_bind, id, kernPa_kva true hd, kernPa_kva false hf]
  simp

theorem page2pa_toNat {p : Nat} (hp : p < 1048576) : (page2pa p).toNat = p * 4096 := by
  rw [page2pa, UInt32.toNat_shiftLeft, Nat.shiftLeft_eq, UInt32.toNat_ofNat']
  change p % 2 ^ 32 * 2 ^ 12 % 2 ^ 32 = _
  omega

theorem pgnum_page2pa {p : Nat} (hp : p < 1048576) : (pgnum (page2pa p)).toNat = p := by
  rw [pgnum_toNat, page2pa_toNat hp]
  omega

theorem page2pa_inj {p q : Nat} (hp : p < 1048576) (hq : q < 1048576)
    (h : page2pa p = page2pa q) : p = q := by
  have hnat := congrArg UInt32.toNat h
  rw [page2pa_toNat hp, page2pa_toNat hq] at hnat
  omega

theorem page2pa_add_kernbase {p : Nat} (hp : p < 1048576) : page2pa p + kernbase = kva p := by
  apply UInt32.toNat_inj.mp
  rw [UInt32.toNat_add, page2pa_toNat hp, kva, UInt32.toNat_ofNat', kernbase_toNat]
  omega

theorem page2kva_eq {s : Machine} {p : Nat} (hp : p < s.npages) (hlt : p < 1048576) :
    (page2kva p).run s = .ok (kva p, s) := by
  rw [page2kva, kaddr, Prog.run_read_bind, pgnum_page2pa hlt, if_neg (by omega),
    page2pa_add_kernbase hlt]
  rfl

theorem paddr_kva {s : Machine} {f : Nat} (hf : f < 65536) :
    (paddr (kva f)).run s = .ok (page2pa f, s) := by
  have hge : ¬ kva f < kernbase := by
    rw [UInt32.lt_iff_toNat_lt, kva_toNat hf, kernbase_toNat]
    omega
  have hsub : kva f - kernbase = page2pa f := by
    rw [← page2pa_add_kernbase (by omega : f < 1048576), UInt32.add_sub_cancel]
  rw [paddr, if_neg hge, hsub]
  rfl

theorem paddr_of_eq_kva {s : Machine} {f : Nat} {va : UInt32} (hva : va = kva f)
    (hf : f < 65536) : (paddr va).run s = .ok (page2pa f, s) := by
  rw [hva]
  exact paddr_kva hf

theorem frameOf_lt (e : UInt32) : frameOf e < 1048576 := by
  have he := toNat_lt e
  rw [frameOf, pgnum_toNat]
  omega

theorem pteAddr_eq_page2pa (e : UInt32) : pteAddr e = page2pa (frameOf e) := by
  apply UInt32.toNat_inj.mp
  rw [page2pa_toNat (frameOf_lt e), pteAddr_toNat, frameOf, pgnum_toNat]

theorem kaddr_page2pa {s : Machine} {f : Nat} (hf : f < s.npages) (hlt : f < 1048576) :
    (kaddr (page2pa f)).run s = .ok (kva f, s) :=
  page2kva_eq hf hlt

theorem pa2page_page2pa {s : Machine} {f : Nat} (hf : f < s.npages) (hlt : f < 1048576) :
    (pa2page (page2pa f)).run s = .ok (f, s) := by
  rw [pa2page, Prog.run_read_bind, pgnum_page2pa hlt, if_neg (by omega)]
  rfl

theorem present_zero : ¬ present 0 := by decide

theorem page2pa_and_low {p : Nat} {fl : UInt32} (hp : p < 1048576) (hfl : fl.toNat < 4096) :
    page2pa p &&& fl = 0 := by
  apply UInt32.toNat_inj.mp
  rw [UInt32.toNat_and, page2pa_toNat hp]
  apply Nat.eq_of_testBit_eq
  intro i
  have hpow : p * 4096 = p * 2 ^ 12 := by norm_num
  rw [Nat.testBit_and, hpow, Nat.testBit_mul_two_pow]
  by_cases hi : 12 ≤ i
  · have hzero : fl.toNat.testBit i = false := by
      apply Nat.testBit_lt_two_pow
      calc fl.toNat < 2 ^ 12 := hfl
        _ ≤ 2 ^ i := Nat.pow_le_pow_right (by norm_num) hi
    simp [hzero]
  · simp [hi]

theorem or_and_right (a b c : UInt32) : (a ||| b) &&& c = (a &&& c) ||| (b &&& c) := by
  apply UInt32.toNat_inj.mp
  simp only [UInt32.toNat_or, UInt32.toNat_and]
  exact Nat.and_or_distrib_right a.toNat b.toNat c.toNat

/-- The flags of an entry are the flags it was built with. -/
theorem entry_and {p : Nat} {fl bit : UInt32} (hp : p < 1048576) (hbit : bit.toNat < 4096) :
    (page2pa p ||| fl) &&& bit = fl &&& bit := by
  rw [or_and_right, page2pa_and_low hp hbit, UInt32.zero_or]

theorem entry_toNat {p : Nat} {fl : UInt32} (hp : p < 1048576) (hfl : fl.toNat < 4096) :
    (page2pa p ||| fl).toNat = p * 4096 + fl.toNat := by
  rw [UInt32.toNat_or, page2pa_toNat hp]
  exact or_eq_add (k := 12) (by omega) hfl

theorem frameOf_entry {p : Nat} {fl : UInt32} (hp : p < 1048576) (hfl : fl.toNat < 4096) :
    frameOf (page2pa p ||| fl) = p := by
  rw [frameOf, pgnum_toNat, entry_toNat hp hfl]
  omega

theorem present_entry {p : Nat} {fl : UInt32} (hp : p < 1048576) :
    present (page2pa p ||| fl) ↔ present fl := by
  unfold present
  rw [entry_and hp (by decide)]

theorem allows_entry {p : Nat} {fl : UInt32} (hp : p < 1048576) (write user : Bool) :
    allows (page2pa p ||| fl) write user ↔ allows fl write user := by
  unfold allows
  rw [present_entry hp, entry_and hp (by decide), entry_and hp (by decide)]

theorem or_low {a b : UInt32} (ha : a.toNat < 4096) (hb : b.toNat < 4096) :
    (a ||| b).toNat < 4096 := by
  rw [UInt32.toNat_or]
  exact Nat.or_lt_two_pow (n := 12) ha hb

theorem present_or_pteP (fl : UInt32) : present (fl ||| pteP) := by
  have hand : (fl ||| pteP) &&& pteP = pteP := by
    rw [or_and_right, UInt32.and_self]
    apply UInt32.toNat_inj.mp
    rw [UInt32.toNat_or, UInt32.toNat_and]
    apply Nat.eq_of_testBit_eq
    intro i
    rw [Nat.testBit_or, Nat.testBit_and]
    cases pteP.toNat.testBit i <;> simp
  intro h
  rw [hand] at h
  exact absurd h (by decide)

/-- The flags of the page directory entries that `pgdir_walk` creates. -/
def tableFlags : UInt32 := pteP ||| pteW ||| pteU

end Jos
