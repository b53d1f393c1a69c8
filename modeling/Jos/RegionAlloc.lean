import Jos.MapRegion
import Jos.Load

/-!
The pages that `region_alloc` maps. It counts them from the length alone, so a region
that does not begin on a page border can end in a page that it leaves as it was.
-/

namespace Jos

/-- `PTE_W | PTE_U | PTE_P`. -/
def regionPerm : UInt32 := pteW ||| pteU ||| pteP

/-- Every byte from `va` on, `len` of them, can be written by the user, and different
pages lie in different frames. -/
structure Covered (s : Machine) (f : Nat) (va len : UInt32) : Prop where
  mapped : ∀ b < len.toNat, ∃ pa, s.walk f (va + UInt32.ofNat b) true true = some pa
  distinct : ∀ b < len.toNat, ∀ c < len.toNat, ∀ pa pa',
    vpn (va + UInt32.ofNat b) ≠ vpn (va + UInt32.ofNat c) →
    s.walk f (va + UInt32.ofNat b) true true = some pa →
    s.walk f (va + UInt32.ofNat c) true true = some pa' → pa / 4096 ≠ pa' / 4096

/-- Where the environment `e` keeps the entry of page number `k`. -/
def pageSlot (e : Fin nenv) (k : Nat) : Slot := .pte e (pdxIdx (pageVa k)) (ptxIdx (pageVa k))

/-- No other slot refers to the page of the slot `x`. -/
def Alone (own : Slot → Option Nat) (x : Slot) : Prop :=
  ∀ y p, own x = some p → own y = some p → y = x

/-- What `n` rounds of `region_alloc` from page number `k` on leave. -/
structure PagesAdded (L : Layout) (e : Fin nenv) (f k n : Nat) (s s' : Machine) : Prop where
  inv : ∃ fl', KInv L fl' s'
  envs : s'.envs = s.envs
  here : ∀ i < n, ∃ p < 65536, pteAt s'.mem f (vpn (pageVa (k + i))) = some (newPte p regionPerm)
  alone : ∀ i < n, Alone (own s'.mem s'.envs) (pageSlot e (k + i))
  other : ∀ m : Vpn, m.1.val < userPdes → (∀ i < n, m ≠ vpn (pageVa (k + i))) →
    pteAt s'.mem f m = pteAt s.mem f m
  keeps : ∀ x p, (∀ i < n, x ≠ pageSlot e (k + i)) → own s.mem s.envs x = some p →
    Alone (own s.mem s.envs) x →
    own s'.mem s'.envs x = some p ∧ Alone (own s'.mem s'.envs) x

variable {L : Layout} {fl : List Nat} {s s₁ s' : Machine} {e : Fin nenv} {f k n p : Nat}
  {va len : UInt32}

theorem pageVa_lt (hk : k < 977920) : pageVa k < utop := by
  have hutop : utop.toNat = 4005560320 := rfl
  rw [UInt32.lt_iff_toNat_lt, pageVa_toNat (by omega), hutop]
  omega

theorem pageSlot_eq {i j : Nat} :
    pageSlot e i = pageSlot e j ↔ vpn (pageVa i) = vpn (pageVa j) := by
  simp [pageSlot, vpn]

/-- The entries below `UTOP` are the references of the environment. -/
theorem own_pte (hf : dirFrame s.envs e = some f) {d t : Fin 1024} (hd : d.val < userPdes) :
    own s.mem s.envs (.pte e d t) = (pteAt s.mem f (d, t)).map frameOf := by
  simp only [own, pteFrame, pdeFrame_of_dir hf hd]
  cases hg : entryFrame (s.mem f d) with
  | none => rw [pteAt_of_no_table hg, Option.bind_none, Option.map_none]
  | some g =>
    rw [pteAt_of_table hg, Option.bind_some]
    unfold entryFrame presentEntry
    split <;> rfl

theorem own_pageSlot (hf : dirFrame s.envs e = some f) (hk : k < 977920) :
    own s.mem s.envs (pageSlot e k) = (pteAt s.mem f (vpn (pageVa k))).map frameOf :=
  own_pte hf (pdxIdx_lt_userPdes (pageVa_lt hk))

theorem pteAt_of_unmapped (hf : dirFrame s.envs e = some f) (hva : va < utop)
    (hnone : mappedAt s e va = none) : pteAt s.mem f (vpn va) = none :=
  Option.map_eq_none_iff.mp ((own_pte hf (pdxIdx_lt_userPdes hva)).symm.trans hnone)

/-- The new reference to the fresh page `p` and the fresh or old page table `g`. -/
theorem alone_inserted {own own' : Slot → Option Nat} {x d : Slot} {g : Nat}
    (hown : own' = Function.update (Function.update own d (some g)) x (some p))
    (hp : ∀ y, own y ≠ some p) (hgp : g ≠ p) : Alone own' x := by
  intro y q hx hy
  rw [hown, Function.update_self] at hx
  obtain rfl := Option.some.inj hx
  by_contra hyx
  rw [hown, Function.update_of_ne hyx] at hy
  by_cases hyd : y = d
  · rw [hyd, Function.update_self] at hy
    exact hgp (Option.some.inj hy)
  · rw [Function.update_of_ne hyd] at hy
    exact hp y hy

theorem alone_kept {own own' : Slot → Option Nat} {x d y : Slot} {g q : Nat}
    (hown : own' = Function.update (Function.update own d (some g)) x (some p))
    (hp : ∀ z, own z ≠ some p) (hg : own d = some g ∨ own d = none ∧ ∀ z, own z ≠ some g)
    (hyx : y ≠ x) (hy : own y = some q) (halone : Alone own y) :
    own' y = some q ∧ Alone own' y := by
  have hself : own' y = some q := by
    rw [hown, Function.update_of_ne hyx]
    by_cases hyd : y = d
    · subst hyd
      rw [Function.update_self]
      rcases hg with hg | ⟨hnone, -⟩
      · exact hg.symm.trans hy
      · rw [hnone] at hy
        cases hy
    · rw [Function.update_of_ne hyd]
      exact hy
  refine ⟨hself, ?_⟩
  intro z r hr hz
  rw [hself] at hr
  obtain rfl := Option.some.inj hr
  rw [hown] at hz
  by_cases hzx : z = x
  · rw [hzx, Function.update_self] at hz
    exact absurd (hy.trans hz.symm) (hp y)
  · rw [Function.update_of_ne hzx] at hz
    by_cases hzd : z = d
    · rw [hzd, Function.update_self] at hz
      rcases hg with hg | ⟨-, hfresh⟩
      · exact halone z q hy (hzd ▸ hg.trans hz)
      · exact absurd (hy.trans hz.symm) (hfresh y)
    · rw [Function.update_of_ne hzd] at hz
      exact halone z q hy hz

/-- A round maps a fresh page, or there are too few free pages and it panics. -/
theorem KInv.regionRound (h : KInv L fl s) (hf : dirFrame s.envs e = some f) (hk : k < 977920) :
    (fl.length < 2 ∧
      ∀ n, ∃ msg, (regionAllocLoop e (n + 1) (pageVa k)).run s = .error (.panic msg)) ∨
    ∃ s₁, (∀ n, (regionAllocLoop e (n + 1) (pageVa k)).run s =
        (regionAllocLoop e n (pageVa (k + 1))).run s₁) ∧ PagesAdded L e f k 1 s s₁ := by
  cases fl with
  | nil =>
    left
    refine ⟨by simp, fun n => ⟨"region_alloc: %e", ?_⟩⟩
    rw [regionAllocLoop, Prog.bind_of_ok (pageAlloc_none 0 h.head_eq)]
    rfl
  | cons p fl =>
    have hmem : p ∈ p :: fl := List.mem_cons_self
    have hmanaged := h.free_managed hmem
    have hp16 := h.good.lt hmanaged
    have htake := h.takePage
    have hpl : p ∉ fl := h.pool.chain.not_mem_tail
    have hva := pageVa_lt hk
    have hd := pdxIdx_lt_userPdes hva
    have hperm : regionPerm.toNat < 4096 := by decide
    have hfree : ∀ y, own s.mem s.envs y ≠ some p := h.free_not_owned hmem
    have hdir : dirFrame (s.takePage p).envs e = some f := hf
    have hpgdir : (s.takePage p).envs e = s.envs e := rfl
    have hcount : ((s.takePage p).pages p).ppRef.toNat < 65535 := by simp
    have hround (n : Nat) : (regionAllocLoop e (n + 1) (pageVa k)).run s =
        (do
          let r ← Jos.pageInsert (kva f) p (pageVa k) regionPerm
          if r < 0 then panic "region_alloc: %e"
          else regionAllocLoop e n (pageVa k + pgsize)).run (s.takePage p) := by
      rw [regionAllocLoop, Prog.bind_of_ok (pageAlloc_some h.head_eq)]
      simp only [Prog.run_read_bind, hpgdir, h.dir_kva hf]
      rfl
    rcases htake.pageInsert hdir hd hmanaged hpl hperm with ⟨hnil, -, hrun⟩ |
      ⟨s₁, fl₁, hrun, hins, hinv⟩
    · left
      refine ⟨by simp [hnil], fun n => ⟨"region_alloc: %e", ?_⟩⟩
      rw [hround, Prog.bind_of_ok hrun, if_pos (by decide)]
      rfl
    · right
      have hnear : ∀ g, fl.head? = some g → InWindow (s.takePage p) g := by
        intro g hg
        exact htake.inWindow (htake.good.lt (htake.free_managed (List.mem_of_head? hg)))
      obtain ⟨s₂, fl₂, hrun', hone⟩ : ∃ s₂ fl₂, (Jos.pageInsert (kva f) p (pageVa k) regionPerm).run
          (s.takePage p) = .ok (0, s₂) ∧
          InsertedOne f p (pageVa k) regionPerm (s.takePage p) fl s₂ fl₂ := by
        rcases (htake.pgdir hdir).pageInsert (htake.userPages hdir) (fun _ => hnear)
          (htake.lt_npages hmanaged) hpl hcount hva hperm with ⟨-, -, hfail⟩ | ⟨-, hok⟩
        · rw [hrun] at hfail
          cases hfail
        · exact hok
      rw [hrun] at hrun'
      cases hrun'
      obtain ⟨g, hg, hown⟩ := hins.own_eq
      have hg' : own s.mem s.envs (.pde e (pdxIdx (pageVa k))) = some g ∨
          own s.mem s.envs (.pde e (pdxIdx (pageVa k))) = none ∧ ∀ z, own s.mem s.envs z ≠ some g :=
        hg.imp_right fun hnew => ⟨hnew.1, htake.free_not_owned hnew.2⟩
      have hgp : g ≠ p := by
        rintro rfl
        rcases hg with hg | ⟨-, hmem'⟩
        · exact hfree (.pde e (pdxIdx (pageVa k))) hg
        · exact hpl hmem'
      refine ⟨s₁, fun n => ?_, ⟨fl₁, hinv fun _ => hcount⟩, hins.rest.envs, ?_, ?_, ?_, ?_⟩
      · rw [hround, Prog.bind_of_ok hrun, if_neg (by decide), pageVa_succ]
      · intro i hi
        obtain rfl : i = 0 := by omega
        exact ⟨p, hp16, newPte_eq p regionPerm ▸ hone.pte⟩
      · intro i hi
        obtain rfl : i = 0 := by omega
        exact alone_inserted hown hfree hgp
      · intro m hm hne
        refine hone.other m (hne 0 (by omega)) ?_
        intro heq
        rw [heq] at hm
        exact absurd hm (by decide)
      · intro x q hx hxq halone
        exact alone_kept hown hfree hg' (hx 0 (by omega)) hxq halone

theorem PagesAdded.append {n' : Nat} (h : PagesAdded L e f k n s s₁)
    (h' : PagesAdded L e f (k + n) n' s₁ s') (hf : dirFrame s.envs e = some f)
    (hk : k + n + n' ≤ 977920) : PagesAdded L e f k (n + n') s s' := by
  have hf₁ : dirFrame s₁.envs e = some f := by
    rw [h.envs]
    exact hf
  have hindex {i : Nat} (hi : i < 977920) : (vpn (pageVa i)).1.val < userPdes :=
    pdxIdx_lt_userPdes (pageVa_lt hi)
  have hne {i j : Nat} (hi : i < n) (hj : j < n') :
      vpn (pageVa (k + i)) ≠ vpn (pageVa (k + n + j)) := by
    intro heq
    have hsame := vpn_pageVa_inj (by omega) (by omega) heq
    omega
  have hsum (i : Nat) : k + (n + i) = k + n + i := (Nat.add_assoc ..).symm
  refine ⟨h'.inv, h'.envs.trans h.envs, ?_, ?_, ?_, ?_⟩
  · intro i hi
    by_cases hin : i < n
    · obtain ⟨p, hp, hpte⟩ := h.here i hin
      exact ⟨p, hp, (h'.other _ (hindex (by omega)) fun j hj => hne hin hj).trans hpte⟩
    · obtain ⟨i', rfl⟩ := Nat.exists_eq_add_of_le (Nat.le_of_not_lt hin)
      rw [hsum]
      exact h'.here i' (by omega)
  · intro i hi
    by_cases hin : i < n
    · obtain ⟨p, hp, hpte⟩ := h.here i hin
      have hown : own s₁.mem s₁.envs (pageSlot e (k + i)) = some p := by
        rw [own_pageSlot hf₁ (by omega), hpte, Option.map_some,
          frameOf_newPte (by omega) (by decide)]
      exact (h'.keeps _ p (fun j hj heq => hne hin hj (pageSlot_eq.mp heq)) hown (h.alone i hin)).2
    · obtain ⟨i', rfl⟩ := Nat.exists_eq_add_of_le (Nat.le_of_not_lt hin)
      rw [hsum]
      exact h'.alone i' (by omega)
  · intro m hm hout
    rw [h'.other m hm fun i hi => hsum i ▸ hout (n + i) (by omega),
      h.other m hm fun i hi => hout i (by omega)]
  · intro x p hx hxp halone
    obtain ⟨hxp', halone'⟩ := h.keeps x p (fun i hi => hx i (by omega)) hxp halone
    exact h'.keeps x p (fun i hi => hsum i ▸ hx (n + i) (by omega)) hxp' halone'

theorem KInv.regionLoop (n : Nat) {k : Nat} {s : Machine} {fl : List Nat} (h : KInv L fl s)
    (hf : dirFrame s.envs e = some f) (hk : k + n ≤ 977920)
    (hrun : (regionAllocLoop e n (pageVa k)).run s = .ok ((), s')) : PagesAdded L e f k n s s' := by
  induction n generalizing k s fl with
  | zero =>
    cases hrun
    exact ⟨⟨fl, h⟩, rfl, fun i hi => absurd hi (Nat.not_lt_zero i),
      fun i hi => absurd hi (Nat.not_lt_zero i), fun _ _ _ => rfl,
      fun _ _ _ hx halone => ⟨hx, halone⟩⟩
  | succ n ih =>
    rcases h.regionRound hf (by omega : k < 977920) with ⟨-, hpanic⟩ | ⟨s₁, hround, hadded⟩
    · obtain ⟨msg, hmsg⟩ := hpanic n
      rw [hmsg] at hrun
      cases hrun
    · obtain ⟨fl₁, hinv⟩ := hadded.inv
      rw [hround] at hrun
      have hf₁ : dirFrame s₁.envs e = some f := by
        rw [hadded.envs]
        exact hf
      have happend := hadded.append (ih hinv hf₁ (by omega) hrun) hf (by omega)
      rwa [Nat.add_comm 1 n] at happend

theorem KInv.walk_eq_some (h : KInv L fl s) (hf : dirFrame s.envs e = some f) (hva : va < utop)
    {pa : Nat} :
    s.walk f va true true = some pa ↔ ∃ v, pteAt s.mem f (vpn va) = some v ∧
      allows v true true ∧ pa = (pteAddr v).toNat + (pgoff va).toNat := by
  have hd := pdxIdx_lt_userPdes hva
  cases hg : entryFrame (s.mem f (pdxIdx va)) with
  | none =>
    have hpde : ¬ allows (s.mem f (pdxIdx va)) true true :=
      fun hallows => entryFrame_eq_none.mp hg hallows.1
    simp [Machine.walk, hpde, vpn, pteAt_of_no_table hg]
  | some g =>
    have hg16 := h.pde_lt ((pdeFrame_of_dir hf hd).trans hg)
    have hpde : s.mem f (pdxIdx va) = page2pa g ||| tableFlags :=
      h.tables.pdeFlags e f _ g hf ((pdeFrame_of_dir hf hd).trans hg)
    have hallows : allows (page2pa g ||| tableFlags) true true :=
      (allows_entry (by omega) true true).mpr (by decide)
    have hframe : frameOf (page2pa g ||| tableFlags) = g := frameOf_entry (by omega) (by decide)
    simp only [Machine.walk, vpn, pteAt_of_table hg]
    rw [hpde, if_pos hallows, hframe]
    by_cases hpte : allows (s.mem g (ptxIdx va)) true true
    · rw [if_pos hpte, presentEntry_of_present hpte.1]
      simp [hpte, eq_comm]
    · rw [if_neg hpte]
      refine iff_of_false (by simp) ?_
      rintro ⟨v, hv, hallows', -⟩
      obtain ⟨-, rfl⟩ := presentEntry_eq_some.mp hv
      exact hpte hallows'

/-- Whether the user may write `va` depends on the page of `va` alone. -/
theorem KInv.writable_iff (h : KInv L fl s) (hf : dirFrame s.envs e = some f) (hva : va < utop) :
    (∃ pa, s.walk f va true true = some pa) ↔
      ∃ v, pteAt s.mem f (vpn va) = some v ∧ allows v true true := by
  simp only [h.walk_eq_some hf hva]
  constructor
  · rintro ⟨-, v, hv, hallows, -⟩
    exact ⟨v, hv, hallows⟩
  · rintro ⟨v, hv, hallows⟩
    exact ⟨_, v, hv, hallows, rfl⟩

theorem KInv.own_of_walk (h : KInv L fl s) (hf : dirFrame s.envs e = some f) (hva : va < utop)
    {pa : Nat} (hwalk : s.walk f va true true = some pa) :
    own s.mem s.envs (pageSlot e (va.toNat / 4096)) = some (pa / 4096) := by
  obtain ⟨v, hv, -, rfl⟩ := (h.walk_eq_some hf hva).mp hwalk
  have hlt := toNat_lt va
  rw [UInt32.lt_iff_toNat_lt, show utop.toNat = 4005560320 from rfl] at hva
  have hframe : ((pteAddr v).toNat + (pgoff va).toNat) / 4096 = frameOf v := by
    rw [frameOf, pgnum_toNat, pteAddr_toNat, pgoff_toNat]
    omega
  rw [own_pageSlot hf (by omega), ← vpn_pageVa, hv, Option.map_some, hframe]

theorem allows_newPte (hp : p < 65536) : allows (newPte p regionPerm) true true := by
  rw [newPte_eq, allows_entry (by omega)]
  decide

/-- Whether the rounds of `region_alloc` reach the last page of the region. -/
theorem PagesAdded.covered_iff (h : PagesAdded L e f (va.toNat / 4096) n s s')
    (hs : KInv L fl s) (hf : dirFrame s.envs e = some f) (hlen : 0 < len.toNat)
    (hend : va.toNat + len.toNat ≤ utop.toNat) (hn : n = (len.toNat + 4095) / 4096) :
    Covered s' f va len ↔ va.toNat % 4096 + len.toNat ≤ n * 4096 ∨
      ∃ pa, s.walk f (va + UInt32.ofNat (len.toNat - 1)) true true = some pa := by
  obtain ⟨fl', hs'⟩ := h.inv
  have hf' : dirFrame s'.envs e = some f := by
    rw [h.envs]
    exact hf
  have hutop : utop.toNat = 4005560320 := rfl
  rw [hutop] at hend
  have haddr {b : Nat} (hb : b < len.toNat) : (va + UInt32.ofNat b).toNat = va.toNat + b :=
    add_ofNat_toNat (by omega)
  have hbelow {b : Nat} (hb : b < len.toNat) : va + UInt32.ofNat b < utop := by
    rw [UInt32.lt_iff_toNat_lt, haddr hb, hutop]
    omega
  -- the pages of the rounds
  have hround {b : Nat} (hb : b < len.toNat) (hbn : va.toNat % 4096 + b < n * 4096) :
      ∃ i < n, (va + UInt32.ofNat b).toNat / 4096 = va.toNat / 4096 + i := by
    rw [haddr hb]
    exact ⟨(va.toNat % 4096 + b) / 4096, by omega, by omega⟩
  have hin {b : Nat} (hb : b < len.toNat) (hbn : va.toNat % 4096 + b < n * 4096) :
      ∃ pa, s'.walk f (va + UInt32.ofNat b) true true = some pa := by
    obtain ⟨i, hi, hpage⟩ := hround hb hbn
    obtain ⟨p, hp, hpte⟩ := h.here i hi
    rw [hs'.writable_iff hf' (hbelow hb), vpn_pageVa, hpage]
    exact ⟨_, hpte, allows_newPte hp⟩
  -- the one page after them
  have hout {b : Nat} (hb : b < len.toNat) (hbn : ¬ va.toNat % 4096 + b < n * 4096) :
      vpn (va + UInt32.ofNat b) = vpn (va + UInt32.ofNat (len.toNat - 1)) ∧
        ((∃ pa, s'.walk f (va + UInt32.ofNat b) true true = some pa) ↔
          ∃ pa, s.walk f (va + UInt32.ofNat (len.toNat - 1)) true true = some pa) := by
    have hlast : len.toNat - 1 < len.toNat := by omega
    have hpage : vpn (va + UInt32.ofNat b) = vpn (va + UInt32.ofNat (len.toNat - 1)) := by
      rw [vpn_eq_iff, haddr hb, haddr hlast]
      omega
    refine ⟨hpage, ?_⟩
    have hkeep : pteAt s'.mem f (vpn (va + UInt32.ofNat b)) =
        pteAt s.mem f (vpn (va + UInt32.ofNat b)) := by
      refine h.other _ (pdxIdx_lt_userPdes (hbelow hb)) ?_
      intro i hi heq
      rw [vpn_eq_iff, haddr hb, pageVa_toNat (by omega)] at heq
      omega
    rw [hs'.writable_iff hf' (hbelow hb), hs.writable_iff hf (hbelow hlast), hkeep, hpage]
  have hdistinct : ∀ b < len.toNat, ∀ c < len.toNat, ∀ pa pa',
      vpn (va + UInt32.ofNat b) ≠ vpn (va + UInt32.ofNat c) →
      va.toNat % 4096 + b < n * 4096 →
      s'.walk f (va + UInt32.ofNat b) true true = some pa →
      s'.walk f (va + UInt32.ofNat c) true true = some pa' → pa / 4096 ≠ pa' / 4096 := by
    intro b hb c hc pa pa' hne hbn hpa hpa' hsame
    obtain ⟨i, hi, hpage⟩ := hround hb hbn
    have hown := hs'.own_of_walk hf' (hbelow hb) hpa
    have hown' := hs'.own_of_walk hf' (hbelow hc) hpa'
    rw [hpage] at hown
    have hslot := h.alone i hi _ _ hown (hsame ▸ hown')
    rw [pageSlot_eq, ← hpage, ← vpn_pageVa, ← vpn_pageVa] at hslot
    exact hne hslot.symm
  constructor
  · intro hcov
    by_cases hfit : va.toNat % 4096 + len.toNat ≤ n * 4096
    · exact .inl hfit
    · have hlast : len.toNat - 1 < len.toNat := by omega
      exact .inr ((hout hlast (by omega)).2.mp (hcov.mapped _ hlast))
  · intro hcond
    refine ⟨?_, ?_⟩
    · intro b hb
      by_cases hbn : va.toNat % 4096 + b < n * 4096
      · exact hin hb hbn
      · exact (hout hb hbn).2.mpr (hcond.resolve_left (by omega))
    · intro b hb c hc pa pa' hne hpa hpa'
      by_cases hbn : va.toNat % 4096 + b < n * 4096
      · exact hdistinct b hb c hc pa pa' hne hbn hpa hpa'
      · by_cases hcn : va.toNat % 4096 + c < n * 4096
        · exact (hdistinct c hc b hb pa' pa hne.symm hcn hpa' hpa).symm
        · exact absurd ((hout hb hbn).1.trans (hout hc hcn).1.symm) hne

theorem roundUp_len (hlen : len.toNat ≤ 4005560320) :
    (roundUp len pgsize).toNat = (len.toNat + 4095) / 4096 * 4096 := by
  rw [roundUp_pgsize_toNat]
  omega

theorem roundDown_pgsize (va : UInt32) : roundDown va pgsize = pageVa (va.toNat / 4096) := by
  have hsize : pgsize.toNat = 4096 := rfl
  have hlt := toNat_lt va
  apply UInt32.toNat_inj.mp
  rw [pageVa_toNat (by omega), roundDown, UInt32.toNat_sub, UInt32.toNat_mod, hsize]
  omega

theorem KInv.regionAlloc_added (h : KInv L fl s) (hf : dirFrame s.envs e = some f)
    (hend : va.toNat + len.toNat ≤ utop.toNat)
    (hrun : (regionAlloc e va len).run s = .ok ((), s')) :
    PagesAdded L e f (va.toNat / 4096) ((len.toNat + 4095) / 4096) s s' := by
  have hutop : utop.toNat = 4005560320 := rfl
  have hsize : pgsize.toNat = 4096 := rfl
  have hlt := toNat_lt va
  have hcount : (roundUp len pgsize / pgsize).toNat = (len.toNat + 4095) / 4096 := by
    rw [UInt32.toNat_div, roundUp_len (by omega), hsize]
    omega
  rw [regionAlloc, hcount, roundDown_pgsize] at hrun
  exact h.regionLoop _ hf (by omega) hrun

/-- Two free pages are enough for one page. -/
theorem KInv.regionAlloc_page (h : KInv L fl s) (hf : dirFrame s.envs e = some f)
    (va : UInt32) (hva : va < utop) (hfree : 2 ≤ fl.length) :
    ∃ s', (regionAlloc e va pgsize).run s = .ok ((), s') := by
  have hutop : utop.toNat = 4005560320 := rfl
  have hsize : pgsize.toNat = 4096 := rfl
  have hcount : (roundUp pgsize pgsize / pgsize).toNat = 1 := by decide
  rw [UInt32.lt_iff_toNat_lt, hutop] at hva
  rw [regionAlloc, hcount, roundDown_pgsize]
  rcases h.regionRound hf (by omega : va.toNat / 4096 < 977920) with ⟨hshort, -⟩ |
    ⟨s₁, hround, -⟩
  · omega
  · exact ⟨s₁, hround 0⟩

/-- The region is covered exactly when its pages are as many as its length rounded up
tells, or its last page was open to the user before. -/
theorem regionAlloc_covers_iff (h : KInv L fl s) (hf : dirFrame s.envs e = some f)
    (hlen : 0 < len.toNat) (hend : va.toNat + len.toNat ≤ utop.toNat)
    (hrun : (regionAlloc e va len).run s = .ok ((), s')) :
    Covered s' f va len ↔ va.toNat % 4096 + len.toNat ≤ (roundUp len pgsize).toNat ∨
      ∃ pa, s.walk f (va + UInt32.ofNat (len.toNat - 1)) true true = some pa := by
  have hutop : utop.toNat = 4005560320 := rfl
  rw [roundUp_len (by omega)]
  exact (h.regionAlloc_added hf hend hrun).covered_iff h hf hlen hend rfl

/-- One page for the environment in slot 0, from the start of a page on. -/
theorem regionAlloc_covers_iff_oneEnv :
    ∃ s', (regionAlloc 0 0x800000 pgsize).run (oneEnv 650) = .ok ((), s') ∧
      Covered s' 374 0x800000 pgsize := by
  obtain ⟨-, hinv, hdir, -⟩ := oneEnv_runs (k := 648) (fun _ _ => True) (fun _ => trivial)
    (fun _ => trivial) (by omega)
  obtain ⟨s', hrun⟩ := hinv.regionAlloc_page hdir 0x800000 (by decide) (by simp)
  exact ⟨s', hrun,
    (regionAlloc_covers_iff hinv hdir (by decide) (by decide) hrun).mpr (.inl (by decide))⟩

/-- One page from `0x800020` on, where the programs start: the bytes from `0x801000` on
stay unmapped. -/
theorem unaligned_region_uncovered :
    ∃ s', (regionAlloc 0 0x800020 pgsize).run (oneEnv 650) = .ok ((), s') ∧
      ¬ Covered s' 374 0x800020 pgsize := by
  obtain ⟨-, hinv, hdir, hnone⟩ := oneEnv_runs (k := 648) (fun _ _ => True) (fun _ => trivial)
    (fun _ => trivial) (by omega)
  obtain ⟨s', hrun⟩ := hinv.regionAlloc_page hdir 0x800020 (by decide) (by simp)
  refine ⟨s', hrun, ?_⟩
  have hadded := hinv.regionAlloc_added hdir (by decide) hrun
  rw [hadded.covered_iff hinv hdir (by decide) (by decide) rfl, not_or]
  refine ⟨by decide, ?_⟩
  have hlast : (0x800020 : UInt32) + UInt32.ofNat (pgsize.toNat - 1) < utop := by decide
  rw [hinv.writable_iff hdir hlast]
  rintro ⟨v, hv, -⟩
  rw [pteAt_of_unmapped hdir hlast (hnone _)] at hv
  cases hv

end Jos
