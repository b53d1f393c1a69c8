import Jos.LoadIcode

/-!
`env_free` of an environment that `env_create` just made: every page, every count and the slot are
as they were before the environment existed.
-/

namespace Jos

variable {L : Layout} {e : Fin nenv} {f q : Nat} {fl fl' fl₂ tail : List Nat} {s s' s₂ : Machine}
  {binary entry : UInt32} {gens : Fin nenv → Nat} {efl : List (Fin nenv)} {type : EnvType}

/-- The pages, the counts, the tables of the kernel and the free slots, these in their order, are in
`s'` what they were in `s`. -/
structure Restored (L : Layout) (s s' : Machine) : Prop where
  freePages : ∃ l l', Chain (fun p => (s.pages p).ppLink) s.pageFreeList l ∧
    Chain (fun p => (s'.pages p).ppLink) s'.pageFreeList l' ∧ ∀ p, p ∈ l' ↔ p ∈ l
  counts : ∀ p, L.Managed p → (s'.pages p).ppRef = (s.pages p).ppRef
  kernPgdir : s'.kernPgdir = s.kernPgdir
  tables : ∀ g, L.KTable g → s'.mem g = s.mem g
  freeSlots : ∀ b, (s'.envs b).envStatus = .free ↔ (s.envs b).envStatus = .free
  freeEnvs : ∃ l, Chain (fun b => (s.envs b).envLink) s.envFreeList l ∧
    Chain (fun b => (s'.envs b).envLink) s'.envFreeList l

namespace Created

/-- After both calls every slot refers to what it did before. -/
theorem own_freed (h : Created L e f entry type tail s s' fl')
    (hfree : (s.envs e).envStatus = .free) (hfreed : Freed L e s' fl' s₂ fl₂) :
    own s₂.mem s₂.envs = own s.mem s.envs := by
  funext x
  by_cases hx : x.env = e
  · rw [hfreed.gone x hx, own_of_free hfree hx]
  · rw [hfreed.other x hx, h.others x hx]

/-- A page of the environment was free before, and nobody else refers to it. -/
theorem was_free (h : Created L e f entry type tail s s' fl') {x : Slot} (hx : x.env = e)
    (hown : own s'.mem s'.envs x = some q) : q ∈ f :: tail := by
  by_cases hdir : x = .dir e
  · subst hdir
    obtain rfl := Option.some.inj (h.dir.symm.trans hown)
    exact List.mem_cons_self
  · exact List.mem_cons_of_mem f (h.given x q hx hdir hown).1

theorem free_iff (h : Created L e f entry type tail s s' fl') (hinv : KInv L (f :: tail) s)
    (hfree : (s.envs e).envStatus = .free) (hfreed : Freed L e s' fl' s₂ fl₂) (q : Nat) :
    q ∈ fl₂ ↔ q ∈ f :: tail := by
  rw [hfreed.free, h.own_freed hfree hfreed]
  constructor
  · rintro (hq | ⟨⟨x, hx⟩, hzero⟩)
    · exact List.mem_cons_of_mem f (h.free q hq)
    · by_cases henv : x.env = e
      · exact h.was_free henv hx
      · rw [h.others x henv] at hx
        have hpos := refs_pos hx
        omega
  · intro hq
    have hunowned := hinv.free_not_owned hq
    have hbase : L.base q = 0 :=
      Layout.base_eq_zero.mpr fun hkpt => hinv.free_not_kernel hq (.inr hkpt)
    have hzero : L.base q + refs (own s.mem s.envs) q = 0 := by
      rw [hbase, refs_eq_zero_iff.mpr hunowned]
    rcases List.mem_cons.mp hq with rfl | hmem
    · exact .inr ⟨⟨.dir e, h.dir⟩, hzero⟩
    · rcases h.kept q hmem with hkept | ⟨x, -, -, hx⟩
      · exact .inl hkept
      · exact .inr ⟨⟨x, hx⟩, hzero⟩

/-- The count of every page that can be handed out is what it was. -/
theorem counts (h : Created L e f entry type tail s s' fl') (hinv : KInv L (f :: tail) s)
    (hfree : (s.envs e).envStatus = .free) (hfreed : Freed L e s' fl' s₂ fl₂)
    (hmanaged : L.Managed q) : (s₂.pages q).ppRef = (s.pages q).ppRef := by
  have hcnt := hinv.pool.counted q hmanaged
  have hcnt' := hfreed.inv.pool.counted q hmanaged
  rw [h.own_freed hfree hfreed] at hcnt'
  exact UInt16.toNat_inj.mp (hcnt'.trans hcnt.symm)

/-- The whole of the kernel after both calls. -/
theorem restored (h : Created L e f entry type tail s s' fl')
    (hinv : MemInv L (f :: tail) gens (e :: efl) s) (hfreed : Freed L e s' fl' s₂ fl₂) :
    Restored L s s₂ := by
  have hfree : (s.envs e).envStatus = .free := (hinv.table.free e).mp List.mem_cons_self
  have hmem : e ∉ efl := hinv.table.chain.not_mem_tail
  have hslots (b : Fin nenv) (hb : b ≠ e) : s₂.envs b = s.envs b := by
    rw [hfreed.envs, Function.update_of_ne hb, h.envs, Function.update_of_ne hb]
  have hslot : s₂.envs e = freedRecord (s'.envs e) s'.envFreeList := by
    rw [hfreed.envs, Function.update_self]
  constructor
  · exact ⟨_, _, hinv.kinv.pool.chain, hfreed.inv.pool.chain, h.free_iff hinv.kinv hfree hfreed⟩
  · exact fun p hp => h.counts hinv.kinv hfree hfreed hp
  · exact hfreed.inv.kernPgdir.trans hinv.kinv.kernPgdir.symm
  · intro g hg
    rw [hfreed.inv.tables.kernel g hg, hinv.kinv.tables.kernel g hg]
  · intro b
    by_cases hb : b = e
    · subst hb
      rw [hslot]
      simp [freedRecord, hfree]
    · rw [hslots b hb]
  · refine ⟨e :: efl, hinv.table.chain, ?_⟩
    rw [hfreed.envFreeList]
    refine ⟨rfl, ?_⟩
    have htail := hinv.table.chain.2
    simp only [hslot, freedRecord, h.envFreeList]
    exact htail.congr fun b hb => by rw [hslots b (ne_of_mem_of_not_mem hb hmem)]

end Created

/-- `env_create` and then `env_free`: nothing is lost and nothing is left. -/
theorem no_page_leaks (h : MemInv L fl gens efl s) (hdir : DirLoaded L s)
    (hheaders : HeadersInside L.image s.mem binary)
    (hbelow : ∀ hdr ∈ loadable s.mem binary, hdr.BelowUtop) {r : Option (Fin nenv)}
    (hrun : (envCreate binary type).run s = .ok (r, s')) :
    ∃ e s₂, r = some e ∧ (envFree e).run s' = .ok ((), s₂) ∧ Restored L s s₂ := by
  obtain ⟨e, efl', f, tail, fl', rfl, rfl, rfl, hcreated⟩ := h.envCreate hdir hheaders hbelow hrun
  have hlive : (s'.envs e).envStatus ≠ .free := (dirFrame_eq_some.mp hcreated.dir).1
  obtain ⟨s₂, fl₂, hfreeRun, hfreed⟩ := hcreated.inv.envFree hlive
  exact ⟨e, s₂, rfl, hfreeRun, hcreated.restored h hfreed⟩

/-- The file is loaded and freed again where 650 pages are free. -/
theorem no_page_leaks_file : ∃ e s' s₂,
    (envCreate 0xF0101000 .user).run (fileKernel 650) = .ok (some e, s') ∧
      (envFree e).run s' = .ok ((), s₂) ∧ Restored (freshLayout 650) (fileKernel 650) s₂ := by
  obtain ⟨efl, -, hinv⟩ := fileKernel_inv (k := 650) (by omega)
  obtain ⟨⟨r, s'⟩, hrun⟩ := fileKernel_returns (k := 650) (by omega) (by omega)
  have hfits := fileKernel_fits 650
  obtain ⟨e, s₂, rfl, hfreed, hrestored⟩ :=
    no_page_leaks hinv ⟨280, rfl, .inl rfl⟩ hfits.toHeadersInside hfits.below hrun
  exact ⟨e, s', s₂, hrun, hfreed, hrestored⟩

end Jos
