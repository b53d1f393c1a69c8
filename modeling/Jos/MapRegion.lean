import Jos.InsertOne

/-!
`boot_map_region` maps its range and nothing else. The loop runs over page numbers; a
round changes the entry of one page, and the first round in a page table that is missing
takes the first free page for it.
-/

namespace Jos

/-- The entries of the page directory that lack a page table for the `n` pages from page
number `k` on. -/
def missingTables (m : Mem) (f k n : Nat) : Finset (Fin 1024) :=
  ((Finset.range n).image fun i => pdxIdx (pageVa (k + i))).filter
    fun d => entryFrame (m f d) = none

/-- There is a free page for every missing page table, where the kernel can write it. -/
def EnoughPages (s : Machine) (f : Nat) (fl : List Nat) (k n : Nat) : Prop :=
  (missingTables s.mem f k n).card ≤ fl.length ∧
    ∀ g ∈ fl.take (missingTables s.mem f k n).card, InWindow s g

/-- The pages that became page tables, and their counts. -/
structure TablesTaken (f : Nat) (s : Machine) (fl : List Nat) (s' : Machine) (fl' : List Nat)
    (new : List Nat) : Prop where
  taken : fl = new ++ fl'
  table : ∀ q ∈ new, ∃ d, entryFrame (s.mem f d) = none ∧ entryFrame (s'.mem f d) = some q
  count : ∀ q ∈ new, (s'.pages q).ppRef = 1
  others : ∀ q, q ∉ new → s'.pages q = s.pages q

/-- The pages from page number `k` on are mapped to those from page number `j` on. -/
structure PagesMapped (f k j n : Nat) (perm : UInt32) (s : Machine) (fl : List Nat)
    (s' : Machine) (fl' : List Nat) : Prop where
  pgdir : Pgdir s' f fl'
  here : ∀ i < n, pteAt s'.mem f (vpn (pageVa (k + i))) = some (newPte (j + i) perm)
  other : ∀ m : Vpn, m.1 ≠ uvptIdx → (∀ i < n, m ≠ vpn (pageVa (k + i))) →
    pteAt s'.mem f m = pteAt s.mem f m
  kept : ∀ d, entryFrame (s.mem f d) ≠ none → s'.mem f d = s.mem f d
  cr3 : s'.cr3 = s.cr3
  tables : ∃ new, TablesTaken f s fl s' fl' new

variable {s s₁ s' : Machine} {f g k j n : Nat} {fl fl₁ fl' : List Nat} {va pa size perm v : UInt32}
  {d : Fin 1024}

theorem mem_missingTables {m : Mem} :
    d ∈ missingTables m f k n ↔
      (∃ i < n, pdxIdx (pageVa (k + i)) = d) ∧ entryFrame (m f d) = none := by
  simp [missingTables]

theorem pageVa_eq_page2pa (hj : j < 1048576) : pageVa j = page2pa j := by
  apply UInt32.toNat_inj.mp
  rw [pageVa_toNat hj, page2pa_toNat hj]

theorem vpn_pageVa_inj (hk : k < 1048576) (hj : j < 1048576)
    (h : vpn (pageVa k) = vpn (pageVa j)) : k = j := by
  rw [vpn_eq_iff, pageVa_toNat hk, pageVa_toNat hj] at h
  omega

theorem inWindow_congr (hcr3 : s'.cr3 = s.cr3) : InWindow s' g ↔ InWindow s g := by
  unfold InWindow Machine.window
  rw [hcr3]

theorem enoughPages_of_length (hlen : n ≤ fl.length) (hwin : ∀ g ∈ fl, InWindow s g) :
    EnoughPages s f fl k n := by
  have hcard : (missingTables s.mem f k n).card ≤ n :=
    calc (missingTables s.mem f k n).card
        ≤ ((Finset.range n).image fun i => pdxIdx (pageVa (k + i))).card :=
          Finset.card_filter_le ..
      _ ≤ (Finset.range n).card := Finset.card_image_le
      _ = n := Finset.card_range n
  exact ⟨le_trans hcard hlen, fun g hg => hwin g (List.mem_of_mem_take hg)⟩

/-- The free page that a missing page table takes. -/
theorem EnoughPages.head (h : EnoughPages s f fl k (n + 1))
    (hnone : entryFrame (s.mem f (pdxIdx (pageVa k))) = none) :
    ∃ g rest, fl = g :: rest ∧ InWindow s g := by
  have hmem : pdxIdx (pageVa k) ∈ missingTables s.mem f k (n + 1) :=
    mem_missingTables.mpr ⟨⟨0, by omega, rfl⟩, hnone⟩
  have hpos := Finset.card_pos.mpr ⟨_, hmem⟩
  obtain ⟨hlen, hwin⟩ := h
  cases fl with
  | nil =>
    simp only [List.length_nil] at hlen
    omega
  | cons g rest =>
    refine ⟨g, rest, rfl, hwin g ?_⟩
    obtain ⟨c, hc⟩ := Nat.exists_eq_succ_of_ne_zero (Nat.pos_iff_ne_zero.mp hpos)
    rw [hc, List.take_succ_cons]
    exact List.mem_cons_self

theorem EnoughPages.next (h : EnoughPages s f fl k (n + 1)) (hcr3 : s'.cr3 = s.cr3)
    (hkept : ∀ d, entryFrame (s.mem f d) ≠ none → s'.mem f d = s.mem f d)
    (hhere : entryFrame (s'.mem f (pdxIdx (pageVa k))) ≠ none)
    (hfl : (fl' = fl ∧ entryFrame (s.mem f (pdxIdx (pageVa k))) ≠ none) ∨
      (∃ g, fl = g :: fl' ∧ entryFrame (s.mem f (pdxIdx (pageVa k))) = none)) :
    EnoughPages s' f fl' (k + 1) n := by
  obtain ⟨hlen, hwin⟩ := h
  have hsub : missingTables s'.mem f (k + 1) n ⊆
      (missingTables s.mem f k (n + 1)).erase (pdxIdx (pageVa k)) := by
    intro d hd
    obtain ⟨⟨i, hi, hdi⟩, hnone⟩ := mem_missingTables.mp hd
    have hne : d ≠ pdxIdx (pageVa k) := fun heq => hhere (heq ▸ hnone)
    have hold : entryFrame (s.mem f d) = none := by
      by_contra hsome
      rw [hkept d hsome] at hnone
      exact hsome hnone
    have hsum : k + (i + 1) = k + 1 + i := by omega
    exact Finset.mem_erase.mpr ⟨hne, mem_missingTables.mpr ⟨⟨i + 1, by omega, hsum ▸ hdi⟩, hold⟩⟩
  have hcard := Finset.card_le_card hsub
  rcases hfl with ⟨rfl, hsome⟩ | ⟨g, rfl, hnone⟩
  · have hle : (missingTables s'.mem f (k + 1) n).card ≤ (missingTables s.mem f k (n + 1)).card :=
      le_trans hcard (Finset.card_le_card (Finset.erase_subset ..))
    refine ⟨le_trans hle hlen, fun g hg => (inWindow_congr hcr3).mpr (hwin g ?_)⟩
    exact List.take_subset_take_left _ hle hg
  · have hmem : pdxIdx (pageVa k) ∈ missingTables s.mem f k (n + 1) :=
      mem_missingTables.mpr ⟨⟨0, by omega, rfl⟩, hnone⟩
    have hpos := Finset.card_pos.mpr ⟨_, hmem⟩
    rw [Finset.card_erase_of_mem hmem] at hcard
    rw [List.length_cons] at hlen
    refine ⟨by omega, fun q hq => (inWindow_congr hcr3).mpr (hwin q ?_)⟩
    obtain ⟨c, hc⟩ := Nat.exists_eq_succ_of_ne_zero (Nat.pos_iff_ne_zero.mp hpos)
    rw [hc, List.take_succ_cons]
    exact List.mem_cons_of_mem g (List.take_subset_take_left _ (by omega) hq)

/-- One round: the walk finds or creates the page table, and the entry is written. -/
theorem Pgdir.mapPage (h : Pgdir s f fl) (hj : j < 1048576)
    (hd : pdxIdx (pageVa k) ≠ uvptIdx)
    (hroom : entryFrame (s.mem f (pdxIdx (pageVa k))) = none →
      ∃ g rest, fl = g :: rest ∧ InWindow s g) (perm : UInt32) :
    ∃ g s₁ fl₁, (pgdirWalk (kva f) (pageVa k) true).run s =
        .ok (some (wordPtr g (ptxIdx (pageVa k))), s₁) ∧ InWindow s₁ g ∧
      TableReady f (pageVa k) s fl g s₁ fl₁ ∧
      PagesMapped f k j 1 perm s fl
        (s₁.setMem (s₁.mem.setWord g (ptxIdx (pageVa k)) (newPte j perm))) fl₁ := by
  have hnear : entryFrame (s.mem f (pdxIdx (pageVa k))) = none →
      ∀ g, fl.head? = some g → InWindow s g := by
    intro hnone g hg
    obtain ⟨g', rest, rfl, hwin⟩ := hroom hnone
    obtain rfl := Option.some.inj hg
    exact hwin
  rcases h.walk hd hnear with ⟨hnone, rfl, -⟩ | ⟨g, s₁, fl₁, hrun, hw⟩
  · obtain ⟨g, rest, hnil, -⟩ := hroom hnone
    cases hnil
  obtain ⟨hpgdir, hdir, hpte⟩ := hw.pgdir.setPte hd hw.table (ptxIdx (pageVa k)) (newPte j perm)
  refine ⟨g, s₁, fl₁, hrun, (hw.pgdir.table _ g hd hw.table).2.1, hw, hpgdir, ?_, ?_, ?_, ?_, ?_⟩
  · intro i hi
    obtain rfl : i = 0 := by omega
    refine (hpte _ hd).trans ?_
    rw [Nat.add_zero, vpn, Function.update_self, presentEntry_newPte hj, Nat.add_zero]
  · intro m hm hne
    have hmk : m ≠ (pdxIdx (pageVa k), ptxIdx (pageVa k)) := hne 0 (by omega)
    refine (hpte m hm).trans ?_
    rw [Function.update_of_ne hmk, hw.same m hm]
  · intro d hsome
    refine (congrFun hdir d).trans ?_
    rcases hw.cases with ⟨rfl, -⟩ | ⟨hnone, -⟩
    · rfl
    · exact hw.tables d fun heq => hsome (heq ▸ hnone)
  · rcases hw.cases with ⟨rfl, -⟩ | ⟨-, -, rfl⟩ <;> rfl
  · rcases hw.cases with ⟨rfl, rfl, -⟩ | ⟨hnone, rfl, -⟩
    · exact ⟨[], rfl, by simp, by simp, fun _ _ => rfl⟩
    · refine ⟨[g], rfl, ?_, ?_, ?_⟩
      · intro q hq
        obtain rfl := List.mem_singleton.mp hq
        refine ⟨pdxIdx (pageVa k), hnone, ?_⟩
        exact (congrArg entryFrame (congrFun hdir _)).trans hw.table
      · intro q hq
        obtain rfl := List.mem_singleton.mp hq
        exact congrArg PageInfo.ppRef ((hw.pages q).trans (if_pos ⟨hnone, rfl⟩))
      · intro q hq
        exact (hw.pages q).trans (if_neg fun hc => hq (List.mem_singleton.mpr hc.2))

theorem TablesTaken.append {new new' : List Nat} (h : TablesTaken f s fl s₁ fl₁ new)
    (h' : TablesTaken f s₁ fl₁ s' fl' new') (hnodup : (new ++ new').Nodup)
    (hkept : ∀ d, entryFrame (s₁.mem f d) ≠ none → s'.mem f d = s₁.mem f d)
    (hkept' : ∀ d, entryFrame (s.mem f d) ≠ none → s₁.mem f d = s.mem f d) :
    TablesTaken f s fl s' fl' (new ++ new') := by
  refine ⟨?_, ?_, ?_, ?_⟩
  · rw [h.taken, h'.taken, List.append_assoc]
  · intro q hq
    rcases List.mem_append.mp hq with hq | hq
    · obtain ⟨d, hnone, hsome⟩ := h.table q hq
      refine ⟨d, hnone, ?_⟩
      rw [hkept d (by simp [hsome]), hsome]
    · obtain ⟨d, hnone, hsome⟩ := h'.table q hq
      refine ⟨d, ?_, hsome⟩
      by_contra hold
      rw [hkept' d hold] at hnone
      exact hold hnone
  · intro q hq
    rcases List.mem_append.mp hq with hq | hq
    · have hne : q ∉ new' := fun hq' => (List.nodup_append.mp hnodup).2.2 q hq q hq' rfl
      rw [h'.others q hne, h.count q hq]
    · exact h'.count q hq
  · intro q hq
    rw [List.mem_append, not_or] at hq
    rw [h'.others q hq.2, h.others q hq.1]

theorem PagesMapped.append {n' : Nat} (h₀ : Pgdir s f fl)
    (h : PagesMapped f k j n perm s fl s₁ fl₁)
    (h' : PagesMapped f (k + n) (j + n) n' perm s₁ fl₁ s' fl') (hk : k + n + n' ≤ 1048576)
    (hd : ∀ i < n, pdxIdx (pageVa (k + i)) ≠ uvptIdx) :
    PagesMapped f k j (n + n') perm s fl s' fl' := by
  refine ⟨h'.pgdir, ?_, ?_, ?_, h'.cr3.trans h.cr3, ?_⟩
  · intro i hi
    by_cases hin : i < n
    · rw [h'.other _ (hd i hin), h.here i hin]
      intro i' hi' heq
      have hsame := vpn_pageVa_inj (by omega) (by omega) heq
      omega
    · obtain ⟨i', rfl⟩ := Nat.exists_eq_add_of_le (Nat.le_of_not_lt hin)
      rw [← Nat.add_assoc, ← Nat.add_assoc]
      exact h'.here i' (by omega)
  · intro m hm hne
    rw [h'.other m hm, h.other m hm]
    · intro i hi
      exact hne i (by omega)
    · intro i hi
      rw [Nat.add_assoc]
      exact hne (n + i) (by omega)
  · intro d hsome
    have hold := h.kept d hsome
    rw [h'.kept d (hold ▸ hsome), hold]
  · obtain ⟨new, hnew⟩ := h.tables
    obtain ⟨new', hnew'⟩ := h'.tables
    have hnodup := h₀.chain.nodup
    rw [hnew.taken, hnew'.taken, ← List.append_assoc] at hnodup
    exact ⟨new ++ new', hnew.append hnew' (List.nodup_append.mp hnodup).1 h'.kept h.kept⟩

theorem Pgdir.mapPages (perm : UInt32) (n : Nat) {k j : Nat} {s : Machine} {fl : List Nat}
    (h : Pgdir s f fl) (hk : k + n ≤ 1048576) (hj : j + n ≤ 1048576)
    (hd : ∀ i < n, pdxIdx (pageVa (k + i)) ≠ uvptIdx) (hroom : EnoughPages s f fl k n) :
    ∃ s' fl', (bootMapRegionLoop (kva f) perm n (pageVa k) (pageVa j)).run s = .ok ((), s') ∧
      PagesMapped f k j n perm s fl s' fl' := by
  induction n generalizing k j s fl with
  | zero =>
    exact ⟨s, fl, rfl, h, fun i hi => absurd hi (Nat.not_lt_zero i), fun _ _ _ => rfl,
      fun _ _ => rfl, rfl, [], rfl, by simp, by simp, fun _ _ => rfl⟩
  | succ n ih =>
    have hd₀ : pdxIdx (pageVa k) ≠ uvptIdx := hd 0 (by omega)
    obtain ⟨g, s₁, fl₁, hwalk, hgw, hready, hone⟩ :=
      h.mapPage (j := j) (by omega) hd₀ hroom.head perm
    have hhere : entryFrame ((s₁.setMem (s₁.mem.setWord g (ptxIdx (pageVa k))
        (newPte j perm))).mem f (pdxIdx (pageVa k))) ≠ none := by
      have hdir := (hready.pgdir.setPte hd₀ hready.table (ptxIdx (pageVa k)) (newPte j perm)).2.1
      intro hnone
      have htable := (congrArg entryFrame (congrFun hdir (pdxIdx (pageVa k)))).trans hready.table
      cases hnone.symm.trans htable
    have hfl : (fl₁ = fl ∧ entryFrame (s.mem f (pdxIdx (pageVa k))) ≠ none) ∨
        (∃ g, fl = g :: fl₁ ∧ entryFrame (s.mem f (pdxIdx (pageVa k))) = none) := by
      rcases hready.cases with ⟨-, hsame, hsome⟩ | ⟨hnone, hcons, -⟩
      · exact .inl ⟨hsame, by simp [hsome]⟩
      · exact .inr ⟨g, hcons, hnone⟩
    have hstep (i : Nat) : k + (i + 1) = k + 1 + i := by omega
    obtain ⟨s', fl', hrun, hrest⟩ := ih (k := k + 1) (j := j + 1) hone.pgdir (by omega) (by omega)
      (fun i hi => hstep i ▸ hd (i + 1) (by omega)) (hroom.next hone.cr3 hone.kept hhere hfl)
    refine ⟨s', fl', ?_, ?_⟩
    · rw [bootMapRegionLoop, Prog.bind_of_ok hwalk]
      simp only
      have hval : pageVa j ||| perm ||| pteP = newPte j perm := by
        rw [pageVa_eq_page2pa (by omega)]
        rfl
      rw [hval, Prog.bind_of_ok (kstore_wordPtr _ _ hgw), pageVa_succ, pageVa_succ, hrun]
    · have happend := PagesMapped.append h hone hrest (by omega)
        (fun i hi => hd i (by omega))
      rwa [Nat.add_comm 1 n] at happend

/-- What `boot_map_region` leaves. -/
structure RegionMapped (f : Nat) (va size pa perm : UInt32) (s : Machine) (fl : List Nat)
    (s' : Machine) (fl' : List Nat) : Prop where
  inside : ∀ b < size.toNat,
    Translates s' f (va + UInt32.ofNat b) (pa + UInt32.ofNat b) perm ∧
      (checkVa2pa (kva f) (va + UInt32.ofNat b)).run s' = .ok (pteAddr (pa + UInt32.ofNat b), s')
  outside : ∀ va' : UInt32, (va'.toNat < va.toNat ∨ va.toNat + size.toNat ≤ va'.toNat) →
    pdxIdx va' ≠ uvptIdx → pteAt s'.mem f (vpn va') = pteAt s.mem f (vpn va')
  tables : ∃ new, TablesTaken f s fl s' fl' new

theorem eq_pageVa (hva : va.toNat % 4096 = 0) : va = pageVa (va.toNat / 4096) := by
  have h := toNat_lt va
  apply UInt32.toNat_inj.mp
  rw [pageVa_toNat (by omega)]
  omega

theorem add_ofNat_toNat {b : Nat} (h : va.toNat + b < 4294967296) :
    (va + UInt32.ofNat b).toNat = va.toNat + b := by
  rw [UInt32.toNat_add, UInt32.toNat_ofNat']
  omega

/-- The page of an address in the region, and of the address it is mapped to. -/
theorem newPte_offset {b : Nat} (hva : va.toNat % 4096 = 0) (hpa : pa.toNat % 4096 = 0)
    (hvb : va.toNat + b < 4294967296) (hpb : pa.toNat + b < 4294967296)
    (hperm : perm.toNat < 4096) :
    vpn (va + UInt32.ofNat b) = vpn (pageVa (va.toNat / 4096 + b / 4096)) ∧
      pteAddr (newPte (pa.toNat / 4096 + b / 4096) perm) = pteAddr (pa + UInt32.ofNat b) ∧
      pteAddr (newPte (pa.toNat / 4096 + b / 4096) perm) + pgoff (va + UInt32.ofNat b) =
        pa + UInt32.ofNat b := by
  have haddr : pteAddr (newPte (pa.toNat / 4096 + b / 4096) perm) =
      pteAddr (pa + UInt32.ofNat b) := by
    apply UInt32.toNat_inj.mp
    rw [pteAddr_eq_page2pa, frameOf_newPte (by omega) hperm, page2pa_toNat (by omega),
      pteAddr_toNat, add_ofNat_toNat hpb]
    omega
  refine ⟨?_, haddr, ?_⟩
  · rw [vpn_eq_iff, add_ofNat_toNat hvb, pageVa_toNat (by omega)]
    omega
  · apply UInt32.toNat_inj.mp
    rw [haddr, UInt32.toNat_add, pteAddr_toNat, pgoff_toNat, add_ofNat_toNat hvb,
      add_ofNat_toNat hpb]
    omega

/-- `boot_map_region` maps the bytes of its region one to one, with its flags; outside the
region it changes no translation, and it changes no count but those of new page tables. -/
theorem bootMapRegion_maps_region (h : Pgdir s f fl) (hva : va.toNat % 4096 = 0)
    (hpa : pa.toNat % 4096 = 0) (hsize : size.toNat % 4096 = 0)
    (hend : va.toNat + size.toNat ≤ 4294967296) (hpaend : pa.toNat + size.toNat ≤ 4294967296)
    (huvpt : ∀ b < size.toNat, pdxIdx (va + UInt32.ofNat b) ≠ uvptIdx) (hperm : perm.toNat < 4096)
    (hroom : EnoughPages s f fl (va.toNat / 4096) (size.toNat / 4096)) :
    ∃ s' fl', (bootMapRegion (kva f) va size pa perm).run s = .ok ((), s') ∧
      RegionMapped f va size pa perm s fl s' fl' := by
  have hindex {b : Nat} (hb : b < size.toNat) :
      pdxIdx (pageVa (va.toNat / 4096 + b / 4096)) ≠ uvptIdx := by
    have hpage := (newPte_offset hva hpa (by omega) (by omega) hperm (b := b)).1
    have hpdx : pdxIdx (va + UInt32.ofNat b) = pdxIdx (pageVa (va.toNat / 4096 + b / 4096)) :=
      congrArg Prod.fst hpage
    exact hpdx ▸ huvpt b hb
  obtain ⟨s', fl', hrun, hmapped⟩ := h.mapPages perm (size.toNat / 4096) (j := pa.toNat / 4096)
    (by omega) (by omega)
    (fun i hi => by
      have hdiv : i * 4096 / 4096 = i := by omega
      have hidx := hindex (b := i * 4096) (by omega)
      rwa [hdiv] at hidx)
    hroom
  refine ⟨s', fl', ?_, ?_, ?_, hmapped.tables⟩
  · rw [bootMapRegion, pgnum_toNat]
    conv_lhs => rw [eq_pageVa hva, eq_pageVa hpa]
    exact hrun
  · intro b hb
    obtain ⟨hvpn, haddr, hoff⟩ := newPte_offset hva hpa (by omega : va.toNat + b < 4294967296)
      (by omega) hperm
    have hpte : pteAt s'.mem f (vpn (va + UInt32.ofNat b)) =
        some (newPte (pa.toNat / 4096 + b / 4096) perm) := by
      rw [hvpn]
      exact hmapped.here (b / 4096) (by omega)
    refine ⟨⟨_, hpte, hoff, newPte_flags (by omega) hperm⟩, ?_⟩
    rw [hmapped.pgdir.check (huvpt b hb), hpte, Option.map_some, Option.getD_some, haddr]
  · intro va' hout hidx
    refine hmapped.other (vpn va') hidx ?_
    intro i hi heq
    have hlt := toNat_lt va'
    rw [vpn_eq_iff, pageVa_toNat (by omega)] at heq
    omega

/-- Two pages on both sides of the border between two page tables that are missing. -/
theorem bootMapRegion_maps_region_fresh :
    ∃ s' fl', (bootMapRegion (kva 280) 0x3FF000 0x2000 0xA0000 6).run (freshKernel 8) =
        .ok ((), s') ∧
      RegionMapped 280 0x3FF000 0x2000 0xA0000 6 (freshKernel 8) (List.range' 374 8) s' fl' := by
  have hinv := freshKernel_kinv (k := 8) (by omega)
  refine bootMapRegion_maps_region hinv.kernPgdir_pgdir.1 (by decide) (by decide) (by decide)
    (by decide) (by decide) ?_ (by decide) ?_
  · intro b hb heq
    have hval := congrArg Fin.val heq
    have hsize : (0x2000 : UInt32).toNat = 8192 := rfl
    have hbase : (0x3FF000 : UInt32).toNat = 4190208 := rfl
    change (pdx _).toNat = 957 at hval
    rw [pdx_toNat, add_ofNat_toNat (by omega)] at hval
    omega
  · refine enoughPages_of_length (by decide) ?_
    intro g hg
    exact hinv.inWindow (hinv.good.lt (hinv.free_managed hg))

end Jos
