import Jos.BootPool

/-!
`check_page_installed_pgdir` passes once `kern_pgdir` is loaded: the processor then goes through the
page table that the test makes.
-/

namespace Jos

namespace Sandbox

variable {s₀ s : Machine} {kd k : Nat} {pp : Fin 3 → Nat} {tail : List Nat} {b b' : Sandbox}
  {i j : Fin 3} {perm w : UInt32} {write : Bool} {c : UInt8}

/-- The words `w₁` and `w₂` stand at the start of pages 1 and 2. -/
def words (b : Sandbox) (w₁ w₂ : Option UInt32) : Sandbox := { b with word := ![none, w₁, w₂] }

/-- Byte `k` of the first word of page `j` is written. -/
def poke (b : Sandbox) (j : Fin 3) (k : Nat) (c : UInt8) : Sandbox :=
  let word := (b.word j).map fun w => wordOf fun i => if i = k then c else byteOf w i
  { b with word := Function.update b.word j word }

section Access

variable (hp : TestPages s₀ kd pp tail) (hcr3 : s₀.cr3 = .pgdir (page2pa kd))

include hp

theorem runs_kloadPage (hw : b.word i = some w) :
    Runs s₀ kd pp tail (kload (kva (pp i))) b w b := by
  intro s hs
  have hin := hs.rest.inWindow (hp.window i)
  have hframe : pp i * 4096 / 4096 = pp i := by omega
  have hidx : wordIdx (pp i * 4096) = 0 := Fin.ext (by simp [wordIdx])
  refine ⟨s, ?_, hs⟩
  simp [kload, kernPa_kva false hin, hframe, hidx, hs.word i w hw]

include hcr3

/-- The translation of the first bytes of the second page, through the entry of the test. -/
theorem Holds.xlat (h : Holds s₀ kd pp tail b s) (hdir : b.dir = some 0)
    (htab : b.tab 1 = some (j, perm)) (hallows : allows (perm ||| pteP) write false)
    (hk : k < 4) : s.xlat (pgsize + UInt32.ofNat k) write = some (pp j * 4096 + k) := by
  have hkd := hp.dirWindow.lt
  have h0 := lt_16 hp 0
  have hj := lt_16 hp j
  have hsize : pgsize.toNat = 4096 := rfl
  have hva : (pgsize + UInt32.ofNat k).toNat = 4096 + k := by
    rw [UInt32.toNat_add, UInt32.toNat_ofNat', hsize]
    omega
  have hpdx : pdxIdx (pgsize + UInt32.ofNat k) = 0 := by
    apply Fin.ext
    simp only [pdxIdx, pdx_toNat, hva, Fin.val_zero]
    omega
  have hptx : ptxIdx (pgsize + UInt32.ofNat k) = idx 1 := by
    have hone : (idx 1).val = 1 := rfl
    apply Fin.ext
    simp only [ptxIdx, ptx_toNat, hva, hone]
    omega
  have hcr3' : s.cr3 = .pgdir (page2pa kd) := h.rest.cr3.trans hcr3
  have hframe : (page2pa kd).toNat / 4096 = kd := by
    rw [page2pa_toNat (by omega)]
    omega
  have hpde : s.mem kd 0 = page2pa (pp 0) ||| tableFlags := by
    rw [h.dir, if_pos hdir]
  have hpte : s.mem (pp 0) (idx 1) = newPte (pp j) perm := by
    rw [holds_entry h (by simp [hdir]), Sandbox.entry, htab]
  have hpdeOk : allows (page2pa (pp 0) ||| tableFlags) write false := by
    rw [allows_entry (by omega)]
    cases write <;> decide
  have hpteOk : allows (newPte (pp j) perm) write false := by
    rw [newPte_eq, allows_entry (by omega)]
    exact hallows
  have hperm := h.perm 1 j perm htab
  have hoff : (pgoff (pgsize + UInt32.ofNat k)).toNat = k := by
    rw [pgoff_toNat, hva]
    omega
  have hnext : frameOf (page2pa (pp 0) ||| tableFlags) = pp 0 :=
    frameOf_entry (by omega) (by decide)
  have haddr : (pteAddr (newPte (pp j) perm)).toNat = pp j * 4096 := by
    rw [pteAddr_eq_page2pa, frameOf_newPte (by omega) hperm, page2pa_toNat (by omega)]
  simp only [Machine.xlat, hcr3', hframe, Machine.walk, hpdx, hpde, if_pos hpdeOk, hnext, hptx,
    hpte, if_pos hpteOk, haddr, hoff]

theorem runs_vloadByte (hdir : b.dir = some 0) (htab : b.tab 1 = some (j, perm))
    (hw : b.word j = some w) (hk : k < 4) :
    Runs s₀ kd pp tail (vloadByte (pgsize + UInt32.ofNat k)) b (byteOf w k) b := by
  intro s hs
  have hread : allows (perm ||| pteP) false false :=
    ⟨present_or_pteP perm, fun heq => Bool.noConfusion heq, fun heq => Bool.noConfusion heq⟩
  have hpa := hs.xlat hp hcr3 hdir htab hread hk
  have hframe : (pp j * 4096 + k) / 4096 = pp j := by omega
  have hidx : wordIdx (pp j * 4096 + k) = 0 := Fin.ext (by simp only [wordIdx, Fin.val_zero]; omega)
  have hmod : (pp j * 4096 + k) % 4 = k := by omega
  refine ⟨s, ?_, hs⟩
  simp [vloadByte, hpa, Mem.byte, hframe, hidx, hmod, hs.word j w hw]

/-- A word is read through the entry of the test. -/
theorem runs_vload32 (hdir : b.dir = some 0) (htab : b.tab 1 = some (j, perm))
    (hw : b.word j = some w) : Runs s₀ kd pp tail (vload32 pgsize) b w b := by
  have hbyte (k : Nat) (hk : k < 4) := runs_vloadByte hp hcr3 hdir htab hw hk
  have hword : Runs s₀ kd pp tail (pure (wordOf fun k => byteOf w k)) b w b := by
    rw [wordOf_byteOf]
    exact .pure _ _ _
  exact .bind (hbyte 0 (by decide)) (.bind (hbyte 1 (by decide)) (.bind (hbyte 2 (by decide))
    (.bind (hbyte 3 (by decide)) hword)))

/-- A byte of the first word is written through the entry of the test. -/
theorem runs_vstoreByte (hdir : b.dir = some 0) (htab : b.tab 1 = some (j, perm))
    (hwrite : allows (perm ||| pteP) true false) (hj : j ≠ 0) (hw : b.word j = some w) (hk : k < 4)
    (hb : some (b.poke j k c) = some b') :
    Runs s₀ kd pp tail (vstoreByte (pgsize + UInt32.ofNat k) c) b () b' := by
  intro s hs
  have hpa := hs.xlat hp hcr3 hdir htab hwrite hk
  have hframe : (pp j * 4096 + k) / 4096 = pp j := by omega
  have hidx : wordIdx (pp j * 4096 + k) = 0 := Fin.ext (by simp only [wordIdx, Fin.val_zero]; omega)
  have hmod : (pp j * 4096 + k) % 4 = k := by omega
  refine ⟨s.setMem (s.mem.setByte (pp j * 4096 + k) c), by simp [vstoreByte, hpa], ?_⟩
  rw [← Option.some.inj hb, poke, hw]
  refine hs.setPage hp (fun h0 => absurd h0 hj) (fun g hg => ?_) (fun v hv => ?_)
  · exact Mem.setByte_frame _ _ (by rw [hframe]; exact hg)
  · rw [← Option.some.inj hv, Mem.setByte, hframe, hidx, hmod, Mem.setWord_same, hs.word j w hw]

end Access

/-- The three pages end in another order. -/
theorem runs_checkInstalled (hp : TestPages s₀ kd pp tail)
    (hcr3 : s₀.cr3 = .pgdir (page2pa kd)) :
    Runs s₀ kd pp tail checkPageInstalledPgdir (pages [0, 1, 2] 0 0 0 none none none) ()
      ((pages [0, 2, 1] 0 0 0 none none none).words (some 0x01010101) (some 0x03030303)) := by
  unfold checkPageInstalledPgdir
  refine .bind (runs_assertAlloc hp (i := 0)
    (eq_of_gives rfl : _ = some (pages [1, 2] 0 0 0 none none none))) ?_
  refine .bind (runs_assertAlloc hp (i := 1)
    (eq_of_gives rfl : _ = some (pages [2] 0 0 0 none none none))) ?_
  refine .bind (runs_assertAlloc hp (i := 2)
    (eq_of_gives rfl : _ = some (pages [] 0 0 0 none none none))) ?_
  refine .bind (runs_free hp (eq_of_gives rfl : _ = some (pages [0] 0 0 0 none none none))) ?_
  refine .bind (runs_page2kva hp) (.bind (runs_memset hp (i := 1) 1 (w := some 0x01010101)
    (fun hi => by cases hi) (fun v hv => by cases hv; decide) (eq_of_gives rfl : _ =
      some ((pages [0] 0 0 0 none none none).words (some 0x01010101) none))) ?_)
  refine .bind (runs_page2kva hp) (.bind (runs_memset hp (i := 2) 2 (w := some 0x02020202)
    (fun hi => by cases hi) (fun v hv => by cases hv; decide) (eq_of_gives rfl : _ =
      some ((pages [0] 0 0 0 none none none).words (some 0x01010101) (some 0x02020202)))) ?_)
  refine .bind (runs_kernPgdir hp) (.bind (runs_insert hp (i := 1) (t := 1) (by decide)
    (eq_of_gives rfl : _ = some ((pages [] 1 1 0 (some 0) none (some (1, pteW))).words
      (some 0x01010101) (some 0x02020202)))) ?_)
  refine .bind (runs_assertRef rfl) ?_
  refine .bind (runs_vload32 hp hcr3 rfl rfl rfl) ?_
  refine .bind (runs_check rfl) ?_
  refine .bind (runs_kernPgdir hp) (.bind (runs_insert hp (i := 2) (t := 1) (by decide)
    (eq_of_gives rfl : _ = some ((pages [1] 1 0 1 (some 0) none (some (2, pteW))).words
      (some 0x01010101) (some 0x02020202)))) ?_)
  refine .bind (runs_vload32 hp hcr3 rfl rfl rfl) ?_
  refine .bind (runs_check rfl) ?_
  refine .bind (runs_assertRef rfl) ?_
  refine .bind (runs_assertRef rfl) ?_
  have hstore (k : Nat) (hk : k < 4) (w w' : UInt32)
      (hb : some (((pages [1] 1 0 1 (some 0) none (some (2, pteW))).words
        (some 0x01010101) (some w)).poke 2 k 3) = some ((pages [1] 1 0 1 (some 0) none
          (some (2, pteW))).words (some 0x01010101) (some w'))) :=
    runs_vstoreByte hp hcr3 (c := 3) rfl rfl (by decide) (by decide) rfl hk hb
  refine .bind (.bind (hstore 0 (by decide) 0x02020202 0x02020203 (eq_of_gives rfl))
    (.bind (hstore 1 (by decide) 0x02020203 0x02020303 (eq_of_gives rfl))
    (.bind (hstore 2 (by decide) 0x02020303 0x02030303 (eq_of_gives rfl))
    (hstore 3 (by decide) 0x02030303 0x03030303 (eq_of_gives rfl))))) ?_
  refine .bind (runs_page2kva hp) (.bind (runs_kloadPage hp rfl) ?_)
  refine .bind (runs_check rfl) ?_
  refine .bind (runs_kernPgdir hp) (.bind (runs_remove hp (t := 1)
    (eq_of_gives rfl : _ = some ((pages [2, 1] 1 0 0 (some 0) none none).words
      (some 0x01010101) (some 0x03030303)))) ?_)
  refine .bind (runs_assertRef rfl) ?_
  refine .bind (runs_loadPde hp (d := 0) (by decide)) ?_
  refine .bind (runs_check (pteAddr_pde hp rfl)) ?_
  refine .bind (runs_clearPde hp (d := 0) (by decide) rfl
    (eq_of_gives rfl : _ = some ((pages [2, 1] 1 0 0 none none none).words
      (some 0x01010101) (some 0x03030303)))) ?_
  refine .bind (runs_assertRef rfl) ?_
  refine .bind (runs_clearRef hp
    (eq_of_gives rfl : _ = some ((pages [2, 1] 0 0 0 none none none).words
      (some 0x01010101) (some 0x03030303)))) ?_
  exact runs_free hp (eq_of_gives rfl)

end Sandbox

end Jos
