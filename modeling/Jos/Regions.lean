import Jos.CheckFreeList

/-!
Several calls of `boot_map_region` for regions that share no page. Besides the translations this
says which entries of the page directory are filled and which frames are written.
-/

namespace Jos

/-- `count` pages from page number `page` on, for the frames from `frame` on. -/
structure Region where
  page : Nat
  frame : Nat
  count : Nat
  perm : UInt32

namespace Region

/-- The virtual page `m` lies in the region. -/
def Has (r : Region) (m : Vpn) : Prop := ∃ i < r.count, m = vpn (pageVa (r.page + i))

/-- The entries of the page directory for the region. -/
def tables (r : Region) : Finset (Fin 1024) :=
  (Finset.range r.count).image fun i => pdxIdx (pageVa (r.page + i))

structure Fits (r : Region) : Prop where
  page : r.page + r.count ≤ 1048576
  frame : r.frame + r.count ≤ 1048576
  uvpt : uvptIdx ∉ r.tables
  perm : r.perm.toNat < 4096

/-- `boot_map_region` of the region. -/
def map (r : Region) (f : Nat) : Kern Unit :=
  bootMapRegionLoop (kva f) r.perm r.count (pageVa r.page) (pageVa r.frame)

theorem map_eq {r : Region} {va size pa perm : UInt32} (f : Nat) (hva : va = pageVa r.page)
    (hsize : (pgnum size).toNat = r.count) (hpa : pa = pageVa r.frame) (hperm : perm = r.perm) :
    bootMapRegion (kva f) va size pa perm = r.map f := by
  rw [bootMapRegion, hva, hsize, hpa, hperm, map]

def Apart (r r' : Region) : Prop := ∀ m, ¬ (r.Has m ∧ r'.Has m)

end Region

/-- The pages that the next `m` page tables take can be written. -/
def LowFirst (m : Nat) (s : Machine) (fl : List Nat) : Prop :=
  m ≤ fl.length ∧ ∀ g ∈ fl.take m, InWindow s g

/-- New page tables from the free list `fl`, for entries `d` with `D d`. -/
structure TablesGrown (f : Nat) (D : Fin 1024 → Prop) (s : Machine) (fl : List Nat)
    (s' : Machine) : Prop where
  rest : PagesOnly s s'
  dir : ∀ d, s'.mem f d = s.mem f d ∨
    entryFrame (s.mem f d) = none ∧ D d ∧ ∃ g ∈ fl, s'.mem f d = page2pa g ||| tableFlags
  pages : ∀ q, s'.pages q = s.pages q ∨ s'.pages q = { ppLink := none, ppRef := 1 }
  frames : ∀ q, q ≠ f → q ∉ fl → (∀ d, d ≠ uvptIdx → entryFrame (s.mem f d) ≠ some q) →
    s'.mem q = s.mem q

variable {f k j n m : Nat} {perm : UInt32} {s s₁ s' : Machine} {fl fl₁ fl' new : List Nat}
  {D D' : Fin 1024 → Prop} {d : Fin 1024} {r : Region} {rs rs' : List Region}

theorem LowFirst.enough (h : LowFirst m s fl) (hm : (missingTables s.mem f k n).card ≤ m) :
    EnoughPages s f fl k n := by
  refine ⟨hm.trans h.1, fun g hg => h.2 g ?_⟩
  exact List.take_subset_take_left _ hm hg

theorem LowFirst.next {c : Nat} (h : LowFirst (c + m) s (new ++ fl')) (hnew : new.length ≤ c)
    (hcr3 : s'.cr3 = s.cr3) : LowFirst m s' fl' := by
  obtain ⟨hlen, hwin⟩ := h
  rw [List.length_append] at hlen
  refine ⟨by omega, fun g hg => (inWindow_congr hcr3).mpr (hwin g ?_)⟩
  rw [List.take_append]
  refine List.mem_append_right _ (List.take_subset_take_left _ ?_ hg)
  omega

theorem entryFrame_pde_entry {g : Nat} (hg : g < 1048576) :
    entryFrame (page2pa g ||| tableFlags) = some g :=
  entryFrame_eq_some.mpr ⟨(present_entry hg).mpr (by decide), frameOf_entry hg (by decide)⟩

namespace TablesGrown

theorem refl (f : Nat) (D : Fin 1024 → Prop) (s : Machine) (fl : List Nat) :
    TablesGrown f D s fl s :=
  ⟨.refl s, fun _ => .inl rfl, fun _ => .inl rfl, fun _ _ _ _ => rfl⟩

theorem mono (h : TablesGrown f D s fl s') (hD : ∀ d, D d → D' d) : TablesGrown f D' s fl s' where
  rest := h.rest
  dir d := (h.dir d).imp_right fun ⟨hnone, hd, hg⟩ => ⟨hnone, hD d hd, hg⟩
  pages := h.pages
  frames := h.frames

theorem kept (h : TablesGrown f D s fl s') (hd : entryFrame (s.mem f d) ≠ none) :
    s'.mem f d = s.mem f d :=
  (h.dir d).resolve_right fun hnew => hd hnew.1

theorem trans (h₀ : Pgdir s f fl) (h : TablesGrown f D s fl s₁) (hfl : fl = new ++ fl₁)
    (h' : TablesGrown f D s₁ fl₁ s') : TablesGrown f D s fl s' := by
  have hsub {g : Nat} (hg : g ∈ fl₁) : g ∈ fl := hfl ▸ List.mem_append_right new hg
  refine ⟨h.rest.trans h'.rest, ?_, ?_, ?_⟩
  · intro d
    rcases h'.dir d with hsame | ⟨hnone, hd, g, hg, hnew⟩
    · rw [hsame]
      exact h.dir d
    · rcases h.dir d with hold | ⟨hnone', hd', -⟩
      · exact .inr ⟨hold ▸ hnone, hd, g, hsub hg, hnew⟩
      · exact .inr ⟨hnone', hd', g, hsub hg, hnew⟩
  · intro q
    rcases h'.pages q with hsame | hnew
    · rw [hsame]
      exact h.pages q
    · exact .inr hnew
  · intro q hq hfree htable
    rw [h'.frames q hq (fun hmem => hfree (hsub hmem)) ?_, h.frames q hq hfree htable]
    intro d hd hframe
    rcases h.dir d with hold | ⟨-, -, g, hg, hnew⟩
    · exact htable d hd (hold ▸ hframe)
    · have hlt := (h₀.free g hg).1
      have hle := h₀.npages
      rw [hnew, entryFrame_pde_entry (by omega)] at hframe
      exact hfree (Option.some.inj hframe ▸ hg)

end TablesGrown

/-- The walk of one round, and the entry that is written after it. -/
theorem TableReady.grown {g : Nat} {va : UInt32} (h₀ : Pgdir s f fl)
    (h : TableReady f va s fl g s₁ fl₁) (t : Fin 1024) (v : UInt32) :
    TablesGrown f (· = pdxIdx va) s fl (s₁.setMem (s₁.mem.setWord g t v)) := by
  obtain ⟨-, hdir, -⟩ := h.pgdir.setPte h.index h.table t v
  have hother {q : Nat} (hq : q ≠ g) : s₁.mem.setWord g t v q = s₁.mem q :=
    Mem.setWord_frame _ _ _ hq
  rcases h.cases with ⟨rfl, rfl, hsome⟩ | ⟨hnone, rfl, rfl⟩
  · refine ⟨rfl, fun d => .inl (congrFun hdir d), fun _ => .inl rfl, ?_⟩
    intro q hq hfree htable
    exact hother fun heq => htable _ h.index (heq ▸ hsome)
  · have hroot : g ≠ f := h.pgdir.tree.ne_root _ g h.index h.table
    refine ⟨rfl, ?_, ?_, ?_⟩
    · intro d
      rw [Machine.setMem_mem, hdir]
      by_cases hd : d = pdxIdx va
      · subst hd
        exact .inr ⟨hnone, rfl, g, List.mem_cons_self, Mem.setWord_same ..⟩
      · exact .inl (h.tables d hd)
    · intro q
      have hpages := h.pages q
      by_cases hq : q = g
      · rw [if_pos ⟨hnone, hq⟩] at hpages
        exact .inr hpages
      · rw [if_neg fun hc => hq hc.2] at hpages
        exact .inl hpages
    · intro q hq hfree _
      have hqg : q ≠ g := fun heq => hfree (heq ▸ List.mem_cons_self)
      refine (hother hqg).trans ?_
      exact (Mem.setWord_frame _ _ _ hq).trans (Mem.zeroFrame_frame _ hqg)

/-- The loop of `boot_map_region` with all that it changes. -/
theorem Pgdir.growPages (perm : UInt32) (n : Nat) {k j : Nat} {s : Machine} {fl : List Nat}
    (h : Pgdir s f fl) (hk : k + n ≤ 1048576) (hj : j + n ≤ 1048576)
    (hd : ∀ i < n, pdxIdx (pageVa (k + i)) ≠ uvptIdx) (hroom : EnoughPages s f fl k n) :
    ∀ s', (bootMapRegionLoop (kva f) perm n (pageVa k) (pageVa j)).run s = .ok ((), s') →
      TablesGrown f (fun d => ∃ i < n, d = pdxIdx (pageVa (k + i))) s fl s' := by
  induction n generalizing k j s fl with
  | zero =>
    intro s' hrun
    cases hrun
    exact .refl ..
  | succ n ih =>
    intro s' hrun
    have hd₀ : pdxIdx (pageVa k) ≠ uvptIdx := hd 0 (by omega)
    obtain ⟨g, s₁, fl₁, hwalk, hgw, hready, hone⟩ :=
      h.mapPage (j := j) (by omega) hd₀ hroom.head perm
    have hgrown := hready.grown h (ptxIdx (pageVa k)) (newPte j perm)
    have hdir := (hready.pgdir.setPte hd₀ hready.table (ptxIdx (pageVa k)) (newPte j perm)).2.1
    have hhere : entryFrame ((s₁.setMem (s₁.mem.setWord g (ptxIdx (pageVa k))
        (newPte j perm))).mem f (pdxIdx (pageVa k))) ≠ none := by
      rw [Machine.setMem_mem, hdir, hready.table]
      simp
    obtain ⟨new, hfl, hcases⟩ : ∃ new, fl = new ++ fl₁ ∧
        ((fl₁ = fl ∧ entryFrame (s.mem f (pdxIdx (pageVa k))) ≠ none) ∨
          ∃ g, fl = g :: fl₁ ∧ entryFrame (s.mem f (pdxIdx (pageVa k))) = none) := by
      rcases hready.cases with ⟨-, hsame, hsome⟩ | ⟨hnone, hcons, -⟩
      · exact ⟨[], hsame.symm, .inl ⟨hsame, by simp [hsome]⟩⟩
      · exact ⟨[g], hcons, .inr ⟨g, hcons, hnone⟩⟩
    have hstep (i : Nat) : k + (i + 1) = k + 1 + i := by omega
    have hval : pageVa j ||| perm ||| pteP = newPte j perm := by
      rw [pageVa_eq_page2pa (by omega)]
      rfl
    rw [bootMapRegionLoop, Prog.bind_of_ok hwalk] at hrun
    simp only at hrun
    rw [hval, Prog.bind_of_ok (kstore_wordPtr _ _ hgw), pageVa_succ, pageVa_succ] at hrun
    have hrest := ih (k := k + 1) (j := j + 1) hone.pgdir (by omega) (by omega)
      (fun i hi => hstep i ▸ hd (i + 1) (by omega)) (hroom.next hone.cr3 hone.kept hhere hcases)
      s' hrun
    refine TablesGrown.trans h (hgrown.mono ?_) hfl (hrest.mono ?_)
    · rintro d rfl
      exact ⟨0, by omega, rfl⟩
    · rintro d ⟨i, hi, rfl⟩
      exact ⟨i + 1, by omega, congrArg (fun q => pdxIdx (pageVa q)) (hstep i).symm⟩

/-- The regions `rs` are mapped behind the page directory `f`, and nothing else. -/
structure RegionsMapped (f : Nat) (rs : List Region) (s : Machine) (fl : List Nat)
    (s' : Machine) (fl' : List Nat) : Prop where
  pgdir : Pgdir s' f fl'
  grown : TablesGrown f (fun d => ∃ r ∈ rs, d ∈ r.tables) s fl s'
  inside : ∀ r ∈ rs, ∀ i < r.count,
    pteAt s'.mem f (vpn (pageVa (r.page + i))) = some (newPte (r.frame + i) r.perm)
  outside : ∀ m : Vpn, m.1 ≠ uvptIdx → (∀ r ∈ rs, ¬ r.Has m) →
    pteAt s'.mem f m = pteAt s.mem f m
  tables : ∃ new, TablesTaken f s fl s' fl' new ∧
    new.length ≤ (rs.map fun r => r.tables.card).sum

/-- There are at most as many new page tables as entries for them. -/
theorem TablesTaken.length_le {new : List Nat} {D : Finset (Fin 1024)} (h₀ : Pgdir s f fl)
    (h : TablesTaken f s fl s' fl' new) (hgrown : TablesGrown f (· ∈ D) s fl s') :
    new.length ≤ D.card := by
  have hnodup : new.Nodup := by
    have hfl := h₀.chain.nodup
    rw [h.taken] at hfl
    exact (List.nodup_append.mp hfl).1
  have hsub : new.toFinset ⊆ D.image fun d => (entryFrame (s'.mem f d)).getD 0 := by
    intro q hq
    obtain ⟨d, hnone, hsome⟩ := h.table q (List.mem_toFinset.mp hq)
    refine Finset.mem_image.mpr ⟨d, ?_, by simp [hsome]⟩
    rcases hgrown.dir d with hsame | ⟨-, hd, -⟩
    · rw [hsame, hnone] at hsome
      cases hsome
    · exact hd
  calc new.length = new.toFinset.card := (List.toFinset_card_of_nodup hnodup).symm
    _ ≤ (D.image fun d => (entryFrame (s'.mem f d)).getD 0).card := Finset.card_le_card hsub
    _ ≤ D.card := Finset.card_image_le

theorem Pgdir.mapRegion (h : Pgdir s f fl) (hfits : r.Fits)
    (hroom : EnoughPages s f fl r.page r.count) :
    ∃ s' fl', (r.map f).run s = .ok ((), s') ∧ RegionsMapped f [r] s fl s' fl' := by
  have huvpt : ∀ i < r.count, pdxIdx (pageVa (r.page + i)) ≠ uvptIdx := by
    intro i hi heq
    refine hfits.uvpt (Finset.mem_image.mpr ⟨i, Finset.mem_range.mpr hi, heq⟩)
  obtain ⟨s', fl', hrun, hmapped⟩ := h.mapPages r.perm r.count hfits.page hfits.frame huvpt hroom
  have hgrown : TablesGrown f (· ∈ r.tables) s fl s' := by
    refine (h.growPages r.perm r.count hfits.page hfits.frame huvpt hroom s' hrun).mono ?_
    rintro d ⟨i, hi, rfl⟩
    exact Finset.mem_image.mpr ⟨i, Finset.mem_range.mpr hi, rfl⟩
  obtain ⟨new, hnew⟩ := hmapped.tables
  refine ⟨s', fl', hrun, hmapped.pgdir, hgrown.mono (by simp), ?_, ?_, new, hnew, ?_⟩
  · intro r' hr' i hi
    obtain rfl := List.mem_singleton.mp hr'
    exact hmapped.here i hi
  · intro m hm hno
    exact hmapped.other m hm fun i hi heq => hno r (List.mem_singleton_self r) ⟨i, hi, heq⟩
  · have hle := hnew.length_le h hgrown
    simpa using hle

theorem RegionsMapped.append (h₀ : Pgdir s f fl) (h : RegionsMapped f rs s fl s₁ fl₁)
    (h' : RegionsMapped f rs' s₁ fl₁ s' fl') (hfits : ∀ r ∈ rs, r.Fits)
    (hapart : ∀ r ∈ rs, ∀ r' ∈ rs', r.Apart r') :
    RegionsMapped f (rs ++ rs') s fl s' fl' := by
  obtain ⟨new, hnew, hlen⟩ := h.tables
  obtain ⟨new', hnew', hlen'⟩ := h'.tables
  refine ⟨h'.pgdir, ?_, ?_, ?_, new ++ new', ?_, ?_⟩
  · refine TablesGrown.trans h₀ (h.grown.mono ?_) hnew.taken (h'.grown.mono ?_)
    · rintro d ⟨r, hr, hd⟩
      exact ⟨r, List.mem_append_left _ hr, hd⟩
    · rintro d ⟨r, hr, hd⟩
      exact ⟨r, List.mem_append_right _ hr, hd⟩
  · intro r hr i hi
    rcases List.mem_append.mp hr with hr | hr
    · rw [h'.outside, h.inside r hr i hi]
      · intro heq
        exact (hfits r hr).uvpt (Finset.mem_image.mpr ⟨i, Finset.mem_range.mpr hi, heq⟩)
      · exact fun r' hr' hhas => hapart r hr r' hr' _ ⟨⟨i, hi, rfl⟩, hhas⟩
    · exact h'.inside r hr i hi
  · intro m hm hno
    rw [h'.outside m hm fun r hr => hno r (List.mem_append_right _ hr),
      h.outside m hm fun r hr => hno r (List.mem_append_left _ hr)]
  · have hnodup := h₀.chain.nodup
    rw [hnew.taken, hnew'.taken, ← List.append_assoc] at hnodup
    exact hnew.append hnew' (List.nodup_append.mp hnodup).1 (fun d hd => h'.grown.kept hd)
      fun d hd => h.grown.kept hd
  · rw [List.length_append, List.map_append, List.sum_append]
    omega

theorem RegionsMapped.nil (h : Pgdir s f fl) : RegionsMapped f [] s fl s fl :=
  ⟨h, .refl .., by simp, fun _ _ _ => rfl, [], ⟨rfl, by simp, by simp, fun _ _ => rfl⟩, by simp⟩

/-- One more region, when the first free pages can be written. -/
theorem RegionsMapped.more {c : Nat} (h₀ : Pgdir s f fl) (h : RegionsMapped f rs s fl s₁ fl₁)
    (hfits : ∀ r ∈ rs, r.Fits) (hr : r.Fits) (hapart : ∀ r' ∈ rs, r'.Apart r)
    (hcard : r.tables.card ≤ c) (hlow : LowFirst (c + m) s₁ fl₁) :
    ∃ s' fl', (r.map f).run s₁ = .ok ((), s') ∧
      RegionsMapped f (rs ++ [r]) s fl s' fl' ∧ LowFirst m s' fl' := by
  have hmissing : (missingTables s₁.mem f r.page r.count).card ≤ c + m := by
    have hsub : (missingTables s₁.mem f r.page r.count).card ≤ r.tables.card :=
      Finset.card_filter_le ..
    omega
  obtain ⟨s', fl', hrun, hone⟩ := h.pgdir.mapRegion hr (hlow.enough hmissing)
  have happend := RegionsMapped.append h₀ h hone hfits (by simpa using hapart)
  obtain ⟨new, hnew, hlen⟩ := hone.tables
  have hle : new.length ≤ c := by
    simp only [List.map_cons, List.map_nil, List.sum_cons, List.sum_nil, Nat.add_zero] at hlen
    omega
  refine ⟨s', fl', hrun, happend, ?_⟩
  have htaken := hnew.taken
  rw [htaken] at hlow
  exact hlow.next hle hone.grown.rest.cr3

namespace Region

theorem mem_tables (h : r.page + r.count ≤ 1048576) :
    d ∈ r.tables ↔ ∃ i < r.count, (r.page + i) / 1024 = d.val := by
  simp only [tables, Finset.mem_image, Finset.mem_range]
  refine exists_congr fun i => and_congr_right fun hi => ?_
  rw [Fin.ext_iff, pdxIdx_pageVa (by omega)]

/-- The region has the entries from `lo` up to `hi`. -/
theorem tables_card_le (lo hi : Nat) (h : r.page + r.count ≤ 1048576) (hlo : lo * 1024 ≤ r.page)
    (hhi : r.page + r.count ≤ hi * 1024) : r.tables.card ≤ hi - lo := by
  calc r.tables.card ≤ (Finset.Ico lo hi).card := by
        refine Finset.card_le_card_of_injOn Fin.val ?_ Fin.val_injective.injOn
        intro d hd
        obtain ⟨i, hi, hval⟩ := (mem_tables h).mp hd
        simp only [Finset.coe_Ico, Set.mem_Ico]
        omega
    _ = hi - lo := Nat.card_Ico lo hi

/-- Regions with different pages. -/
theorem apart_of_le {r' : Region} (h : r.page + r.count ≤ 1048576)
    (h' : r'.page + r'.count ≤ 1048576)
    (hle : r.page + r.count ≤ r'.page ∨ r'.page + r'.count ≤ r.page) : r.Apart r' := by
  rintro m ⟨⟨i, hi, rfl⟩, i', hi', heq⟩
  have hsame := vpn_pageVa_inj (by omega) (by omega) heq
  omega

end Region

end Jos
