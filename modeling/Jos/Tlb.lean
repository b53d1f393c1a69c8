import Jos.PmapCases
import Jos.Tables
import Jos.Unmapped

/-!
The translations that the processor caches. The cache may be filled from the
loaded page directory before every change of memory and between calls. It is
coherent when every cached entry is the one now in the page tables.

`page_remove` invalidates the address it clears, and a new entry replaces one
that was not present and so is not cached. Inserting the same page again with
other flags is the exception: `page_insert` then writes the entry and returns
without invalidating it.
-/

namespace Jos

variable {s s' : Machine} {f g p : Nat} {va perm : UInt32}

def Coherent (s : Machine) : Prop := ∀ n v, s.tlb n = some v → s.translation n = some v

/-- The page directory in frame `f` is loaded, no two of its entries share a
page table, and only the entry at `UVPT` may name the directory itself. -/
structure TreeAt (s : Machine) (f : Nat) : Prop where
  cr3 : ∃ pa, s.cr3 = .pgdir pa ∧ pa.toNat / 4096 = f
  lt : f < 65536
  unique : ∀ d d', present (s.mem f d) → present (s.mem f d') →
    frameOf (s.mem f d) = frameOf (s.mem f d') → d = d'
  self : ∀ d, present (s.mem f d) → frameOf (s.mem f d) = f → d = uvptIdx

/-- No entry of the page directory `f` names the frame `g`. -/
def Unused (s : Machine) (f g : Nat) : Prop :=
  g ≠ f ∧ ∀ d, present (s.mem f d) → frameOf (s.mem f d) ≠ g

namespace TreeAt

theorem translation_eq (h : TreeAt s f) (n : Vpn) :
    s.translation n =
      if present (s.mem f n.1) then
        if present (s.mem (frameOf (s.mem f n.1)) n.2) then
          some (s.mem (frameOf (s.mem f n.1)) n.2)
        else none
      else none := by
  obtain ⟨pa, hpa, hf⟩ := h.cr3
  simp only [Machine.translation, hpa, hf]

theorem translation_table (h : TreeAt s f) (htable : TableAt s f g va) :
    s.translation (vpn va) =
      if present (s.mem g (ptxIdx va)) then some (s.mem g (ptxIdx va)) else none := by
  rw [h.translation_eq]
  simp only [vpn, htable.pde, if_true, htable.frame]

/-- Changing frames that the loaded directory does not use keeps every
translation. -/
theorem setMem (h : TreeAt s f) {m : Mem} (hdir : m f = s.mem f) : TreeAt (s.setMem m) f := by
  refine ⟨h.cr3, h.lt, ?_, ?_⟩
  · intro d d' hd hd' heq
    simp only [Machine.setMem_mem, hdir] at hd hd' heq
    exact h.unique d d' hd hd' heq
  · intro d hd heq
    simp only [Machine.setMem_mem, hdir] at hd heq
    exact h.self d hd heq

variable (h : TreeAt s f) (htable : TableAt s f g va) (hva : pdxIdx va ≠ uvptIdx)

include h htable hva

theorem table_ne_dir : g ≠ f := by
  rintro rfl
  exact hva (h.self _ htable.pde htable.frame)

theorem setPte (v : UInt32) : TreeAt (s.setMem (s.mem.setWord g (ptxIdx va) v)) f :=
  h.setMem (Mem.setWord_frame _ _ _ (h.table_ne_dir htable hva).symm)

/-- Writing the entry of `va` changes no other translation. -/
theorem translation_setPte (v : UInt32) {n : Vpn} (hn : n ≠ vpn va) :
    (s.setMem (s.mem.setWord g (ptxIdx va) v)).translation n = s.translation n := by
  have hgf := h.table_ne_dir htable hva
  rw [(h.setPte htable hva v).translation_eq, h.translation_eq]
  simp only [Machine.setMem_mem, Mem.setWord_frame _ _ _ hgf.symm]
  by_cases hpde : present (s.mem f n.1)
  · have hword : s.mem.setWord g (ptxIdx va) v (frameOf (s.mem f n.1)) n.2 =
        s.mem (frameOf (s.mem f n.1)) n.2 := by
      apply Mem.setWord_of_ne
      intro hframe hidx
      apply hn
      have hdir := h.unique n.1 (pdxIdx va) hpde htable.pde (hframe.trans htable.frame.symm)
      exact Prod.ext hdir hidx
    simp only [hpde, if_true, hword]
  · simp only [hpde, if_false]

end TreeAt

namespace Coherent

/-- Everything cached after a change of memory was a translation before it. -/
theorem cached_before (h : Coherent s) {m : Mem} {n : Vpn} {v : UInt32}
    (hv : (s.setMem m).tlb n = some v) : s.translation n = some v := by
  simp only [Machine.setMem_tlb] at hv
  split at hv
  · cases ht : s.translation n with
    | none =>
      rw [ht, Option.none_or] at hv
      rw [← ht]
      exact h n v hv
    | some w =>
      rw [ht, Option.some_or] at hv
      exact hv
  · exact h n v hv

theorem setMem (h : Coherent s) {m : Mem}
    (hkeep : ∀ n v, s.translation n = some v → (s.setMem m).translation n = some v) :
    Coherent (s.setMem m) :=
  fun n v hv => hkeep n v (h.cached_before hv)

/-- The hardware caches a present translation. -/
theorem lookup (h : Coherent s) {n : Vpn} {v : UInt32} (hv : s.translation n = some v) :
    Coherent { s with tlb := Function.update s.tlb n (some v) } := by
  intro n' v' hcached
  by_cases hn : n' = n
  · subst hn
    simp only [Function.update_self] at hcached
    cases hcached
    exact hv
  · simp only [Function.update_of_ne hn] at hcached
    exact h n' v' hcached

/-- `page_remove` leaves a coherent cache: it clears one entry and invalidates
its address. -/
theorem unmapped (h : Coherent s) (htree : TreeAt s f) (htable : TableAt s f g va)
    (hva : pdxIdx va ≠ uvptIdx) : Coherent (s.unmapped g p va) := by
  intro n v hv
  have hv' : Function.update (s.setMem (s.mem.setWord g (ptxIdx va) 0)).tlb (vpn va) none n =
    some v := hv
  by_cases hn : n = vpn va
  · rw [hn, Function.update_self] at hv'
    cases hv'
  · rw [Function.update_of_ne hn] at hv'
    exact (htree.translation_setPte htable hva 0 hn).trans (h.cached_before hv')

/-- An entry that was not present is not cached when it is written. -/
theorem setPte_absent (h : Coherent s) (htree : TreeAt s f) (htable : TableAt s f g va)
    (hva : pdxIdx va ≠ uvptIdx) (habsent : ¬ present (s.mem g (ptxIdx va))) (v : UInt32) :
    Coherent (s.setMem (s.mem.setWord g (ptxIdx va) v)) := by
  apply h.setMem
  intro n w hw
  by_cases hn : n = vpn va
  · subst hn
    rw [htree.translation_table htable, if_neg habsent] at hw
    cases hw
  · rw [htree.translation_setPte htable hva v hn]
    exact hw

/-- A present entry may be written when that does not change it, or when the
processor has not cached it. -/
theorem setPte_present (h : Coherent s) (htree : TreeAt s f) (htable : TableAt s f g va)
    (hva : pdxIdx va ≠ uvptIdx) {v : UInt32}
    (hv : s.mem g (ptxIdx va) = v ∨
      (s.tlb (vpn va) = none ∧ s.fills s.clock (vpn va) = false)) :
    Coherent (s.setMem (s.mem.setWord g (ptxIdx va) v)) := by
  rcases hv with hsame | ⟨hcached, hfill⟩
  · have hmem : s.mem.setWord g (ptxIdx va) v = s.mem := by
      funext f' i
      unfold Mem.setWord
      split
      · rename_i hword
        rw [hword.1, hword.2, hsame]
      · rfl
    apply h.setMem
    intro n w hw
    rw [hmem]
    exact hw
  · intro n w hw
    by_cases hn : n = vpn va
    · subst hn
      simp only [Machine.setMem_tlb, hfill, hcached] at hw
      cases hw
    · exact (htree.translation_setPte htable hva v hn).trans (h.cached_before hw)

end Coherent

theorem TreeAt.unmapped (h : TreeAt s f) (htable : TableAt s f g va)
    (hva : pdxIdx va ≠ uvptIdx) : TreeAt (s.unmapped g p va) f := by
  obtain ⟨hcr3, hlt, hunique, hself⟩ := h.setPte htable hva 0
  exact ⟨hcr3, hlt, hunique, hself⟩

section NewTable

variable (h : TreeAt s f) (habsent : ¬ present (s.mem f (pdxIdx va)))
  (hg : Unused s f g) (hg20 : g < 1048576)

include hg in
theorem Unused.zeroFrame_eq {f' : Nat} (hf' : f' = f ∨ ∃ d, present (s.mem f d) ∧
    frameOf (s.mem f d) = f') : s.mem.zeroFrame g f' = s.mem f' := by
  apply Mem.zeroFrame_frame
  rintro rfl
  rcases hf' with rfl | ⟨d, hd, heq⟩
  · exact hg.1 rfl
  · exact hg.2 d hd heq

include h hg in
theorem TreeAt.translation_zeroFrame (n : Vpn) :
    (s.setMem (s.mem.zeroFrame g)).translation n = s.translation n := by
  have hdir := hg.zeroFrame_eq (.inl rfl)
  rw [(h.setMem hdir).translation_eq, h.translation_eq]
  simp only [Machine.setMem_mem, hdir]
  by_cases hpde : present (s.mem f n.1)
  · rw [hg.zeroFrame_eq (.inr ⟨n.1, hpde, rfl⟩)]
  · simp only [hpde, if_false]

/-- The directory after the entry of `va` was set. -/
private theorem newTable_dir (d : Fin 1024) :
    (s.newTable f g va).mem f d =
      if d = pdxIdx va then page2pa g ||| tableFlags else s.mem.zeroFrame g f d := by
  change ((s.mem.zeroFrame g).setWord f _ _) f d = _
  simp [Mem.setWord]

include h hg hg20 in
theorem TreeAt.newTable : TreeAt (s.newTable f g va) f := by
  have hdir := hg.zeroFrame_eq (.inl rfl)
  have hframe : frameOf (page2pa g ||| tableFlags) = g := frameOf_entry hg20 (by decide)
  refine ⟨h.cr3, h.lt, ?_, ?_⟩
  · intro d d' hd hd' heq
    rw [newTable_dir] at hd heq
    rw [newTable_dir] at hd' heq
    rw [hdir] at hd hd' heq
    by_cases hdv : d = pdxIdx va <;> by_cases hdv' : d' = pdxIdx va
    · rw [hdv, hdv']
    · rw [if_pos hdv, if_neg hdv', hframe] at heq
      rw [if_neg hdv'] at hd'
      exact absurd heq.symm (hg.2 d' hd')
    · rw [if_neg hdv, if_pos hdv', hframe] at heq
      rw [if_neg hdv] at hd
      exact absurd heq (hg.2 d hd)
    · rw [if_neg hdv, if_neg hdv'] at heq
      rw [if_neg hdv] at hd
      rw [if_neg hdv'] at hd'
      exact h.unique d d' hd hd' heq
  · intro d hd heq
    rw [newTable_dir, hdir] at hd heq
    by_cases hdv : d = pdxIdx va
    · rw [if_pos hdv, hframe] at heq
      exact absurd heq hg.1
    · rw [if_neg hdv] at hd heq
      exact h.self d hd heq

include h habsent hg hg20 in
/-- Creating a page table only adds translations that were absent, and so not
cached. -/
theorem Coherent.newTable (hc : Coherent s) : Coherent (s.newTable f g va) := by
  have hdir := hg.zeroFrame_eq (.inl rfl)
  have hzero : Coherent (s.setMem (s.mem.zeroFrame g)) := by
    apply hc.setMem
    intro n v hv
    rw [h.translation_zeroFrame hg]
    exact hv
  have hkeep : ∀ n v, (s.setMem (s.mem.zeroFrame g)).translation n = some v →
      (s.newTable f g va).translation n = some v := by
    intro n v hv
    rw [h.translation_zeroFrame hg, h.translation_eq] at hv
    by_cases hpde : present (s.mem f n.1)
    · have hne : n.1 ≠ pdxIdx va := by
        intro heq
        rw [heq] at hpde
        exact habsent hpde
      have hentry : (s.newTable f g va).mem f n.1 = s.mem f n.1 := by
        rw [newTable_dir, if_neg hne, hdir]
      have htable := hg.zeroFrame_eq (.inr ⟨n.1, hpde, rfl⟩)
      rw [(h.newTable hg hg20).translation_eq, hentry, if_pos hpde]
      rw [if_pos hpde] at hv
      by_cases hself : frameOf (s.mem f n.1) = f
      · rw [hself] at hv ⊢
        by_cases hn : n.2 = pdxIdx va
        · rw [hn, if_neg habsent] at hv
          cases hv
        · rw [newTable_dir, if_neg hn, hdir]
          exact hv
      · have hword : (s.newTable f g va).mem (frameOf (s.mem f n.1)) =
            s.mem (frameOf (s.mem f n.1)) :=
          (Mem.setWord_frame _ _ _ hself).trans htable
        rw [hword]
        exact hv
    · rw [if_neg hpde] at hv
      cases hv
  exact hzero.setMem hkeep

end NewTable

inductive Call where
  | insert (p : Nat) (va perm : UInt32)
  | remove (va : UInt32)

/-- The call, on the page directory in frame `f`. -/
def Call.run (f : Nat) : Call → Kern Unit
  | .insert p va perm => do
    let _ ← pageInsert (kva f) p va perm
    return ()
  | .remove va => pageRemove (kva f) va

/-- Any page, any address, any permissions; only mapped addresses are removed. -/
def Call.Allowed (s : Machine) : Call → Prop
  | .insert p _ _ => p < s.npages
  | .remove va => s.translation (vpn va) ≠ none

/-- One step on the loaded page directory `f`: the processor caches a present
translation, or a call that meets `ok` returns. -/
inductive TlbStep (f : Nat) (ok : Machine → Call → Prop) (s : Machine) : Machine → Prop
  | lookup {n : Vpn} {v : UInt32} (hv : s.translation n = some v) :
      TlbStep f ok s { s with tlb := Function.update s.tlb n (some v) }
  | call {c : Call} {s' : Machine} (hallowed : c.Allowed s) (hok : ok s c)
      (hrun : (c.run f).run s = .ok ((), s')) : TlbStep f ok s s'

/-- When a call keeps the cache coherent. The address must lie below the window at
`KERNBASE`, through which the kernel itself reaches memory, and outside the
window at `UVPT`, whose entries are those of the directory itself; a page taken
for a new page table must not be in use in the loaded directory; and putting a
page where it already is must keep the entry as it is, unless the processor has
not cached it. -/
def Keeps (f : Nat) (s : Machine) : Call → Prop
  | .insert p va perm =>
    va < kernbase ∧ pdxIdx va ≠ uvptIdx ∧
    (∀ g, ¬ present (s.mem f (pdxIdx va)) → s.pageFreeList = some g → Unused s f g) ∧
    ∀ v, s.translation (vpn va) = some v → frameOf v = p →
      v = newPte p perm ∨ (s.tlb (vpn va) = none ∧ s.fills s.clock (vpn va) = false)
  | .remove va => va < kernbase ∧ pdxIdx va ≠ uvptIdx

/-- What the runs preserve. -/
structure TlbInv (f : Nat) (s : Machine) : Prop where
  running : Running s
  tree : TreeAt s f
  coherent : Coherent s

theorem TlbInv.lookup (h : TlbInv f s) {n : Vpn} {v : UInt32}
    (hv : s.translation n = some v) :
    TlbInv f { s with tlb := Function.update s.tlb n (some v) } where
  running := ⟨h.running.cr3, h.running.npages, h.running.head, h.running.link⟩
  tree := ⟨h.tree.cr3, h.tree.lt, h.tree.unique, h.tree.self⟩
  coherent := h.coherent.lookup hv

theorem TlbInv.unmapped (h : TlbInv f s) (htable : TableAt s f g va)
    (hva : pdxIdx va ≠ uvptIdx) (hp : p < s.npages) : TlbInv f (s.unmapped g p va) where
  running := h.running.unmapped g va hp
  tree := h.tree.unmapped htable hva
  coherent := h.coherent.unmapped h.tree htable hva

theorem TlbInv.newTable (h : TlbInv f s) (habsent : ¬ present (s.mem f (pdxIdx va)))
    (hg : Unused s f g) (hlt : g < s.npages) :
    TlbInv f (s.newTable f g va) := by
  have hn := h.running.npages
  exact ⟨h.running.newTable f g va, h.tree.newTable hg (by omega),
    h.coherent.newTable h.tree habsent hg (by omega)⟩

theorem TlbInv.remove (h : TlbInv f s) (hva : pdxIdx va ≠ uvptIdx)
    (hrun : (pageRemove (kva f) va).run s = .ok ((), s')) : TlbInv f s' := by
  rcases pageRemove_cases h.running h.tree.lt hrun with ⟨-, rfl⟩ | ⟨g, p, htable, -, hp, rfl⟩
  · exact h
  · exact h.unmapped htable hva hp

theorem TlbInv.incref (h : TlbInv f s) (p : Nat) : TlbInv f (s.incref p) where
  running := h.running.setRef p _
  tree := ⟨h.tree.cr3, h.tree.lt, h.tree.unique, h.tree.self⟩
  coherent := h.coherent

/-- The write of the entry of `va`, once its page table `g` is there. -/
theorem TlbInv.entryWritten (h : TlbInv f s) (htable : TableAt s f g va)
    (hva : pdxIdx va ≠ uvptIdx)
    (hsame : present (s.mem g (ptxIdx va)) → frameOf (s.mem g (ptxIdx va)) = p →
      s.mem g (ptxIdx va) = newPte p perm ∨
        (s.tlb (vpn va) = none ∧ s.fills s.clock (vpn va) = false))
    (hwritten : EntryWritten f g p va perm s s') : TlbInv f s' := by
  cases hwritten with
  | same hpte hframe =>
    exact ⟨h.running.setMem _, h.tree.setPte htable hva _,
      h.coherent.setPte_present h.tree htable hva (hsame hpte hframe)⟩
  | new hpte =>
    have hset : TlbInv f (s.setMem (s.mem.setWord g (ptxIdx va) (newPte p perm))) :=
      ⟨h.running.setMem _, h.tree.setPte htable hva _,
        h.coherent.setPte_absent h.tree htable hva hpte _⟩
    exact hset.incref p
  | @replace q hpte hframe hqp hq =>
    have h₂ := h.unmapped (p := q) htable hva hq
    have hgf := h.tree.table_ne_dir htable hva
    have hdir : (s.unmapped g q va).mem f = s.mem f := Mem.setWord_frame _ _ _ hgf.symm
    have htable₂ : TableAt (s.unmapped g q va) f g va :=
      ⟨htable.dirWindow, htable.tableWindow, by rw [hdir]; exact htable.pde,
        by rw [hdir]; exact htable.frame, htable.lt⟩
    have habsent : ¬ present ((s.unmapped g q va).mem g (ptxIdx va)) := by
      have hzero : (s.unmapped g q va).mem g (ptxIdx va) = 0 := Mem.setWord_same _ _ _ _
      rw [hzero]
      exact present_zero
    have hset : TlbInv f ((s.unmapped g q va).setMem
        ((s.unmapped g q va).mem.setWord g (ptxIdx va) (newPte p perm))) :=
      ⟨h₂.running.setMem _, h₂.tree.setPte htable₂ hva _,
        h₂.coherent.setPte_absent h₂.tree htable₂ hva habsent _⟩
    exact hset.incref p

theorem TlbInv.insert (h : TlbInv f s) (hp : p < s.npages)
    (hok : Keeps f s (.insert p va perm)) {r : Int}
    (hrun : (pageInsert (kva f) p va perm).run s = .ok (r, s')) : TlbInv f s' := by
  obtain ⟨-, hva, hfresh, hsame⟩ := hok
  rcases pageInsert_cases h.running h.tree.lt hp hrun with rfl |
    ⟨g, s₁, htable, hwritten, rfl | ⟨habsent, hfree, hlt, rfl⟩⟩
  · exact h
  · refine h.entryWritten htable hva ?_ hwritten
    intro hpte hframe
    exact hsame _ (by rw [h.tree.translation_table htable, if_pos hpte]) hframe
  · have hunused := hfresh g habsent hfree
    refine (h.newTable habsent hunused hlt).entryWritten htable hva ?_ hwritten
    intro hpte
    have hzero : (s.newTable f g va).mem g (ptxIdx va) = 0 :=
      (Mem.setWord_of_ne _ _ (fun hgf => absurd hgf hunused.1)).trans
        (Mem.zeroFrame_same _ _ _)
    rw [hzero] at hpte
    exact absurd hpte present_zero

theorem TlbInv.step (h : TlbInv f s) (hstep : TlbStep f (Keeps f) s s') : TlbInv f s' := by
  cases hstep with
  | lookup hv => exact h.lookup hv
  | @call c _ hallowed hok hrun =>
    cases c with
    | insert p va perm =>
      obtain ⟨r, t, hinsert, hret⟩ := Prog.bind_eq_ok.mp hrun
      cases hret
      exact h.insert hallowed hok hinsert
    | remove va => exact h.remove hok.2 hrun

/-- In every run of page table calls on the loaded page directory, interleaved
with fills of the cache, whose calls all meet `Keeps`, every cached entry is
the one in the page tables. -/
theorem coherent_of_run (f : Nat) (s s' : Machine) (hrunning : Running s) (htree : TreeAt s f)
    (hcoherent : Coherent s) (hrun : Relation.ReflTransGen (TlbStep f (Keeps f)) s s') :
    Coherent s' := by
  have hinv : TlbInv f s' := by
    induction hrun with
    | refl => exact ⟨hrunning, htree, hcoherent⟩
    | tail _ hstep ih => exact ih.step hstep
  exact hinv.coherent

/-- Page directory in frame 300; its page table in frame 301 maps page 302 at
address 0, writable and for the user. Nothing is cached. -/
def mappedTable : Machine :=
  { Machine.atEntry sampleImage (fun _ => 0)
      (Mem.setWord (Mem.setWord (fun _ _ => 0) 300 (pdxIdx 0) 0x12D007) 301 (ptxIdx 0)
        0x12E007) with
    npages := 1024
    cr3 := .pgdir 0x12C000
    pages := fun p => { ppLink := none, ppRef := if p = 301 ∨ p = 302 then 1 else 0 } }

theorem mappedTable_running : Running mappedTable where
  cr3 := ⟨_, rfl⟩
  npages := by decide
  head := fun _ hp => by cases hp
  link := fun _ _ hq => by cases hq

theorem mappedTable_dir {d : Fin 1024} (hd : present (mappedTable.mem 300 d)) :
    d = pdxIdx 0 := by
  by_contra hne
  have hzero : mappedTable.mem 300 d = 0 := by simp [mappedTable, Machine.atEntry, Mem.setWord, hne]
  rw [hzero] at hd
  exact present_zero hd

theorem mappedTable_tree : TreeAt mappedTable 300 where
  cr3 := ⟨_, rfl, by decide⟩
  lt := by decide
  unique := fun d d' hd hd' _ => (mappedTable_dir hd).trans (mappedTable_dir hd').symm
  self := by
    intro d hd heq
    rw [mappedTable_dir hd] at heq
    exact absurd heq (by decide)

theorem mappedTable_coherent : Coherent mappedTable := fun _ _ hv => by cases hv

theorem mappedTable_tableAt : TableAt mappedTable 300 301 0 where
  dirWindow := by decide
  tableWindow := by decide
  pde := by decide
  frame := by decide
  lt := by decide

theorem mappedTable_translation : mappedTable.translation (vpn 0) = some 0x12E007 := by decide

/-- The processor caches the entry of address 0. -/
def cachedTable : Machine :=
  { mappedTable with tlb := Function.update mappedTable.tlb (vpn 0) (some 0x12E007) }

theorem cachedTable_step (ok : Machine → Call → Prop) : TlbStep 300 ok mappedTable cachedTable :=
  .lookup mappedTable_translation

theorem cachedTable_tableAt : TableAt cachedTable 300 301 0 :=
  ⟨mappedTable_tableAt.dirWindow, mappedTable_tableAt.tableWindow, mappedTable_tableAt.pde,
    mappedTable_tableAt.frame, mappedTable_tableAt.lt⟩

/-- Removing the page whose entry is cached leaves a coherent cache. -/
theorem cachedTable_remove_coherent : Coherent (cachedTable.unmapped 301 302 0) := by
  refine coherent_of_run 300 mappedTable _ mappedTable_running mappedTable_tree
    mappedTable_coherent (.tail (.single (cachedTable_step _)) (.call (c := .remove 0) ?_ ?_ ?_))
  · change cachedTable.translation (vpn 0) ≠ none
    decide
  · change (0 : UInt32) < kernbase ∧ pdxIdx 0 ≠ uvptIdx
    decide
  · exact pageRemove_table cachedTable_tableAt (by decide) (by decide) (by decide)

/-- Inserting the cached page at its address again, with no permissions, takes
them away in the page table, but the cached entry still grants them when
`page_insert` has returned. -/
theorem cachedTable_insert_stale :
    Running mappedTable ∧ TreeAt mappedTable 300 ∧ Coherent mappedTable ∧
      ∃ s', Relation.ReflTransGen (TlbStep 300 fun _ _ => True) mappedTable s' ∧
        s'.tlb (vpn 0) = some 0x12E007 ∧ s'.translation (vpn 0) = some 0x12E001 ∧
        ¬ Coherent s' := by
  refine ⟨mappedTable_running, mappedTable_tree, mappedTable_coherent, ?_⟩
  have hinsert := pageInsert_same (p := 302) 0 (cachedTable_tableAt.walk true)
    cachedTable_tableAt.tableWindow (by decide) (by decide)
  have hcall : ((Call.insert 302 0 0).run 300).run cachedTable = .ok ((), _) :=
    Prog.bind_of_ok hinsert
  refine ⟨_, .tail (.single (cachedTable_step _)) (.call ?_ trivial hcall), rfl, by decide, ?_⟩
  · change 302 < 1024
    decide
  · intro h
    have hsame := h (vpn 0) 0x12E007 rfl
    exact absurd hsame (by decide)

end Jos
