import Jos.Lib.Segments
import Jos.PhysPages

/-!
The reordering of the free list in `check_page_free_list`. The loop stores through two pointers,
each of them to a variable or to the link of a page; they are the cells where the two lists built so
far end.
-/

namespace Jos

deriving instance DecidableEq for LinkPtr

/-- The physical address is below the limit, which counts page tables of 4 MB. -/
def Below (pdxLimit : UInt32) (pp : Nat) : Prop := ¬ pdxLimit ≤ pdx (page2pa pp)

instance (pdxLimit : UInt32) : DecidablePred (Below pdxLimit) :=
  fun _ => inferInstanceAs (Decidable (¬ _))

/-- `entry_pgdir` maps the first 4 MB. -/
theorem below_one_iff (pp : Nat) : Below 1 pp ↔ (page2pa pp).toNat < 4194304 := by
  have hone : (1 : UInt32).toNat = 1 := rfl
  unfold Below
  rw [UInt32.le_iff_toNat_le, pdx_toNat, hone]
  omega

/-- The links of the pages `l` may have changed, and nothing else. -/
structure LinksOnly (l : List Nat) (s s' : Machine) : Prop where
  pages : s' = { s with pages := s'.pages }
  ref : ∀ p, (s'.pages p).ppRef = (s.pages p).ppRef
  other : ∀ p, p ∉ l → s'.pages p = s.pages p

theorem LinksOnly.refl (l : List Nat) (s : Machine) : LinksOnly l s s where
  pages := rfl
  ref _ := rfl
  other _ _ := rfl

theorem LinksOnly.trans {l : List Nat} {s s' s'' : Machine} (h : LinksOnly l s s')
    (h' : LinksOnly l s' s'') : LinksOnly l s s'' where
  pages := by
    rw [h'.pages, h.pages]
  ref p := (h'.ref p).trans (h.ref p)
  other p hp := (h'.other p hp).trans (h.other p hp)

/-- What the pointers point to. -/
def Relink.cells (r : Relink) (s : Machine) : LinkPtr → Option Nat
  | .pp1 => r.pp1
  | .pp2 => r.pp2
  | .link pp => (s.pages pp).ppLink

theorem storeLink_run (r : Relink) (s : Machine) (tp : LinkPtr) (v : Option Nat) {l : List Nat}
    (hl : ∀ p, tp = .link p → p ∈ l) :
    ∃ r' s', (storeLink r tp v).run s = .ok (r', s') ∧
      r'.cells s' = Function.update (r.cells s) tp v ∧ r'.tp0 = r.tp0 ∧ r'.tp1 = r.tp1 ∧
      LinksOnly l s s' := by
  cases tp with
  | pp1 =>
    refine ⟨{ r with pp1 := v }, s, rfl, ?_, rfl, rfl, LinksOnly.refl l s⟩
    funext c
    cases c <;> simp [Relink.cells]
  | pp2 =>
    refine ⟨{ r with pp2 := v }, s, rfl, ?_, rfl, rfl, LinksOnly.refl l s⟩
    funext c
    cases c <;> simp [Relink.cells]
  | link p =>
    let pages := Function.update s.pages p { s.pages p with ppLink := v }
    refine ⟨r, { s with pages := pages }, rfl, ?_, rfl, rfl, ⟨rfl, ?_, ?_⟩⟩
    · funext c
      cases c with
      | pp1 => simp [Relink.cells]
      | pp2 => simp [Relink.cells]
      | link q =>
        by_cases hq : q = p
        · subst hq
          simp [Relink.cells, pages]
        · simp [Relink.cells, pages, hq]
    · intro q
      by_cases hq : q = p
      · subst hq
        simp [pages]
      · simp [pages, hq]
    · intro q hq
      have hne : q ≠ p := by
        rintro rfl
        exact hq (hl q rfl)
      simp [pages, hne]

section

variable {pdxLimit : UInt32} {l done rest : List Nat} {r : Relink} {s s₀ : Machine}
  {cur : Option Nat}

/-- The loop has seen the pages `done` of the list, and `rest` is left. -/
structure Relinking (pdxLimit : UInt32) (l : List Nat) (s₀ : Machine) (done rest : List Nat)
    (cur : Option Nat) (r : Relink) (s : Machine) : Prop where
  split : l = done ++ rest
  low : ListSegment .link (r.cells s) .pp1 (done.filter (Below pdxLimit ·)) r.tp0
  high : ListSegment .link (r.cells s) .pp2 (done.filter (¬ Below pdxLimit ·)) r.tp1
  left : Chain (fun p => r.cells s (.link p)) cur rest
  links : LinksOnly l s₀ s

/-- Two variables and the links of different pages are different cells. -/
theorem cells_nodup {a a' : LinkPtr} {l' : List Nat} (ha : ∀ p, a ≠ .link p)
    (ha' : ∀ p, a' ≠ .link p) (hne : a ≠ a') (hnodup : (l ++ l' ++ rest).Nodup) :
    (a :: l.map LinkPtr.link ++ a' :: l'.map LinkPtr.link ++ rest.map LinkPtr.link).Nodup := by
  have hinj : Function.Injective LinkPtr.link := fun _ _ heq => LinkPtr.link.inj heq
  have hlinks := hnodup.map hinj
  rw [List.map_append, List.map_append] at hlinks
  have hperm : (a :: l.map LinkPtr.link ++ a' :: l'.map LinkPtr.link ++
      rest.map LinkPtr.link).Perm
      (a :: a' :: (l.map LinkPtr.link ++ l'.map LinkPtr.link ++ rest.map LinkPtr.link)) := by
    rw [List.cons_append, List.cons_append]
    exact (List.perm_middle.append_right _).cons a
  rw [hperm.nodup_iff, List.nodup_cons, List.nodup_cons]
  refine ⟨?_, ?_, hlinks⟩
  · simp [hne, fun p => (ha p).symm]
  · simp [fun p => (ha' p).symm]

theorem filter_parts_perm (q : Nat → Prop) [DecidablePred q] (l : List Nat) :
    (l.filter (q ·) ++ l.filter (¬ q ·)).Perm l := by
  simpa using List.filter_append_perm (fun p => decide (q p)) l

theorem Relinking.nodup (h : Relinking pdxLimit l s₀ done rest cur r s) (hl : l.Nodup) :
    (done.filter (Below pdxLimit ·) ++ done.filter (¬ Below pdxLimit ·) ++ rest).Nodup := by
  rw [((filter_parts_perm (Below pdxLimit) done).append_right rest).nodup_iff, ← h.split]
  exact hl

/-- The cell where a part ends is one of the list. -/
theorem end_of_list {h : LinkPtr → Option Nat} {a b : LinkPtr} {q : Nat}
    (hs : ListSegment .link h a done b) (ha : ∀ p, a ≠ .link p) (hq : b = .link q) : q ∈ done := by
  have hmem := hs.end_mem
  rw [hq] at hmem
  rcases List.mem_cons.mp hmem with heq | hmem
  · exact absurd heq.symm (ha q)
  · obtain ⟨p, hp, heq⟩ := List.mem_map.mp hmem
    obtain rfl := LinkPtr.link.inj heq
    exact hp

theorem Relinking.storeHigh {p : Nat} (hl : l.Nodup)
    (h : Relinking pdxLimit l s₀ done (p :: rest) (some p) r s) (hp : ¬ Below pdxLimit p) :
    ∃ r' s', (storeLink r r.tp1 (some p)).run s = .ok (r', s') ∧
      Relinking pdxLimit l s₀ (done ++ [p]) rest (s'.pages p).ppLink
        { r' with tp1 := .link p } s' := by
  have htp : ∀ q, r.tp1 = .link q → q ∈ l := by
    intro q hq
    rw [h.split]
    exact List.mem_append_left _ (List.mem_of_mem_filter (end_of_list h.high (by simp) hq))
  obtain ⟨r', s', hrun, hcells, htp0, -, hlinks⟩ := storeLink_run r s r.tp1 (some p) htp
  have hnodup := h.nodup hl
  have hswap := (List.perm_append_comm.append_right (p :: rest)).nodup_iff.mp hnodup
  obtain ⟨hhigh, hlow, hleft⟩ := ListSegment.move h.high h.low h.left.2
    (cells_nodup (by simp) (by simp) (by simp) hswap)
  refine ⟨r', s', hrun, ?_⟩
  rw [← hcells] at hhigh hlow hleft
  constructor
  · rw [h.split, List.append_assoc, List.singleton_append]
  · have hfilter : (done ++ [p]).filter (Below pdxLimit ·) = done.filter (Below pdxLimit ·) := by
      simp [hp]
    rw [hfilter]
    change ListSegment _ (r'.cells s') _ _ r'.tp0
    rw [htp0]
    exact hlow
  · have hfilter : (done ++ [p]).filter (¬ Below pdxLimit ·) =
        done.filter (¬ Below pdxLimit ·) ++ [p] := by
      simp [hp]
    rw [hfilter]
    exact hhigh
  · exact hleft
  · exact h.links.trans hlinks

theorem Relinking.storeLow {p : Nat} (hl : l.Nodup)
    (h : Relinking pdxLimit l s₀ done (p :: rest) (some p) r s) (hp : Below pdxLimit p) :
    ∃ r' s', (storeLink r r.tp0 (some p)).run s = .ok (r', s') ∧
      Relinking pdxLimit l s₀ (done ++ [p]) rest (s'.pages p).ppLink
        { r' with tp0 := .link p } s' := by
  have htp : ∀ q, r.tp0 = .link q → q ∈ l := by
    intro q hq
    rw [h.split]
    exact List.mem_append_left _ (List.mem_of_mem_filter (end_of_list h.low (by simp) hq))
  obtain ⟨r', s', hrun, hcells, -, htp1, hlinks⟩ := storeLink_run r s r.tp0 (some p) htp
  obtain ⟨hlow, hhigh, hleft⟩ := ListSegment.move h.low h.high h.left.2
    (cells_nodup (by simp) (by simp) (by simp) (h.nodup hl))
  refine ⟨r', s', hrun, ?_⟩
  rw [← hcells] at hhigh hlow hleft
  constructor
  · rw [h.split, List.append_assoc, List.singleton_append]
  · have hfilter : (done ++ [p]).filter (Below pdxLimit ·) =
        done.filter (Below pdxLimit ·) ++ [p] := by
      simp [hp]
    rw [hfilter]
    exact hlow
  · have hfilter : (done ++ [p]).filter (¬ Below pdxLimit ·) =
        done.filter (¬ Below pdxLimit ·) := by
      simp [hp]
    rw [hfilter]
    change ListSegment _ (r'.cells s') _ _ r'.tp1
    rw [htp1]
    exact hhigh
  · exact hleft
  · exact h.links.trans hlinks

/-- The loop goes once through the list. -/
theorem Relinking.loop (hl : l.Nodup) (h : Relinking pdxLimit l s₀ done rest cur r s) {fuel : Nat}
    (hfuel : rest.length ≤ fuel) :
    ∃ r' s', (relinkLoop pdxLimit fuel cur r).run s = .ok (r', s') ∧
      Relinking pdxLimit l s₀ l [] none r' s' := by
  induction rest generalizing done cur r s fuel with
  | nil =>
    obtain rfl : cur = none := h.left
    obtain rfl : l = done := by rw [h.split, List.append_nil]
    refine ⟨r, s, ?_, h⟩
    cases fuel <;> rfl
  | cons p rest ih =>
    obtain rfl : cur = some p := h.left.1
    obtain ⟨fuel, rfl⟩ := Nat.exists_eq_succ_of_ne_zero (Nat.ne_zero_of_lt hfuel)
    have hrest : rest.length ≤ fuel := Nat.le_of_succ_le_succ hfuel
    by_cases hp : Below pdxLimit p
    · obtain ⟨r₁, s₁, hstore, hnext⟩ := h.storeLow hl hp
      obtain ⟨r', s', hrun, hend⟩ := ih hnext hrest
      refine ⟨r', s', ?_, hend⟩
      rw [relinkLoop, if_neg hp, Prog.bind_of_ok hstore]
      exact hrun
    · obtain ⟨r₁, s₁, hstore, hnext⟩ := h.storeHigh hl hp
      obtain ⟨r', s', hrun, hend⟩ := ih hnext hrest
      refine ⟨r', s', ?_, hend⟩
      rw [relinkLoop, if_pos (not_not.mp hp), Prog.bind_of_ok hstore]
      exact hrun

end

/-- The list is put together from the pages below the limit and the others. -/
theorem relinkFreeList_run (pdxLimit : UInt32) {s : Machine} {l : List Nat}
    (hlist : Chain (fun p => (s.pages p).ppLink) s.pageFreeList l)
    (hfuel : l.length ≤ s.npages + s.npagesBasemem) :
    ∃ s', (relinkFreeList pdxLimit).run s = .ok ((), s') ∧
      Chain (fun p => (s'.pages p).ppLink) s'.pageFreeList
        (l.filter (Below pdxLimit ·) ++ l.filter (¬ Below pdxLimit ·)) ∧
      ∃ pages, LinksOnly l s { s with pages := pages } ∧
        s' = { s with pages := pages, pageFreeList := s'.pageFreeList } := by
  have hnodup := hlist.nodup
  have hstart : Relinking pdxLimit l s [] l s.pageFreeList
      { pp1 := none, pp2 := none, tp0 := .pp1, tp1 := .pp2 } s :=
    ⟨rfl, rfl, rfl, hlist, LinksOnly.refl l s⟩
  obtain ⟨r₁, s₁, hloop, h⟩ := hstart.loop hnodup hfuel
  have htp1 : ∀ q, r₁.tp1 = .link q → q ∈ l :=
    fun q hq => List.mem_of_mem_filter (end_of_list h.high (by simp) hq)
  have htp0 : ∀ q, r₁.tp0 = .link q → q ∈ l :=
    fun q hq => List.mem_of_mem_filter (end_of_list h.low (by simp) hq)
  obtain ⟨r₂, s₂, hended, hcells₂, hsame, -, hlinks₂⟩ := storeLink_run r₁ s₁ r₁.tp1 none htp1
  obtain ⟨r₃, s₃, hjoined, hcells₃, -, -, hlinks₃⟩ := storeLink_run r₂ s₂ r₁.tp0 r₂.pp2 htp0
  have hvars : LinkPtr.pp1 ≠ LinkPtr.pp2 := by simp
  have hcells := cells_nodup (by simp) (by simp) hvars (h.nodup hnodup)
  rw [List.map_nil, List.append_nil] at hcells
  have hjoin := ListSegment.join h.low h.high hcells
  have hpp2 : r₂.pp2 = Function.update (r₁.cells s₁) r₁.tp1 none .pp2 := by
    rw [← hcells₂]
    rfl
  rw [← hpp2, ← hcells₂, ← hcells₃] at hjoin
  have hlinks := (h.links.trans hlinks₂).trans hlinks₃
  refine ⟨{ s₃ with pageFreeList := r₃.pp1 }, ?_, hjoin, s₃.pages, ?_, ?_⟩
  · unfold relinkFreeList listFuel
    simp only [Prog.run_read_bind]
    rw [Prog.bind_of_ok hloop, Prog.bind_of_ok hended, hsame, Prog.bind_of_ok hjoined]
    rfl
  · exact hlinks.pages ▸ hlinks
  · rw [hlinks.pages]

/-- One call of `page_alloc` after the other, with these flags. -/
def pageAllocs : List UInt32 → Kern (List (Option Nat))
  | [] => pure []
  | allocFlags :: rest => do
    let r ← pageAlloc allocFlags
    let rs ← pageAllocs rest
    return r :: rs

theorem pageAllocs_take {flags : List UInt32} {s s' : Machine} {l : List Nat}
    {rs : List (Option Nat)} (hlist : Chain (fun p => (s.pages p).ppLink) s.pageFreeList l)
    (hle : flags.length ≤ l.length) (hrun : (pageAllocs flags).run s = .ok (rs, s')) :
    rs = (l.take flags.length).map some := by
  induction flags generalizing s l rs with
  | nil =>
    cases hrun
    rfl
  | cons f flags ih =>
    obtain ⟨p, l, rfl⟩ := List.exists_cons_of_length_pos (Nat.zero_lt_of_lt hle)
    obtain ⟨r, t, halloc, hothers⟩ := Prog.bind_eq_ok.mp hrun
    obtain ⟨rs', t', hrest, hret⟩ := Prog.bind_eq_ok.mp hothers
    obtain ⟨rfl, hrecords⟩ := pageAlloc_records halloc
    obtain ⟨rfl, rfl⟩ := Prod.mk.inj (Except.ok.inj hret)
    rw [hlist.1] at hrecords ⊢
    obtain ⟨hpages, hhead⟩ := hrecords
    have hkept : ∀ q ∈ l, (t.pages q).ppLink = (s.pages q).ppLink := by
      intro q hq
      have hne : q ≠ p := ne_of_mem_of_not_mem hq (Chain.not_mem_tail hlist)
      rw [hpages]
      simp [Machine.takePage, hne]
    have hnext : Chain (fun q => (t.pages q).ppLink) t.pageFreeList l := by
      rw [hhead]
      exact Chain.pop hlist hkept
    rw [ih hnext (Nat.le_of_succ_le_succ hle) hrest]
    rfl

/-- The relinking of `check_page_free_list(1)` is a stable partition of the free list: the pages
below 4 MB come first, and both groups keep their order. So `page_alloc` returns pages that
`entry_pgdir` maps as long as there are any. -/
theorem free_list_low_first (s : Machine) (l : List Nat)
    (hlist : Chain (fun p => (s.pages p).ppLink) s.pageFreeList l)
    (hpages : ∀ p ∈ l, p < s.npages) :
    ∃ s' low high, (relinkFreeList 1).run s = .ok ((), s') ∧
      low = l.filter (fun p => (page2pa p).toNat < 4194304) ∧
      high = l.filter (fun p => ¬ (page2pa p).toNat < 4194304) ∧
      Chain (fun p => (s'.pages p).ppLink) s'.pageFreeList (low ++ high) ∧
      (low ++ high).Perm l ∧ (low ++ high).Nodup ∧
      (∀ p, (s'.pages p).ppRef = (s.pages p).ppRef ∧ (p ∉ l → s'.pages p = s.pages p)) ∧
      s' = { s with pages := s'.pages, pageFreeList := s'.pageFreeList } ∧
      ∀ flags rs t, flags.length ≤ low.length → (pageAllocs flags).run s' = .ok (rs, t) →
        rs = (low.take flags.length).map some := by
  have hlength : l.length ≤ s.npages := by
    have hrange : l ⊆ List.range s.npages := fun p hp => List.mem_range.mpr (hpages p hp)
    have hle := (List.subperm_of_subset hlist.nodup hrange).length_le
    rwa [List.length_range] at hle
  obtain ⟨s', hrun, hchain, pages, hlinks, hs'⟩ := relinkFreeList_run 1 hlist (by omega)
  have hlow : l.filter (Below 1 ·) = l.filter (fun p => (page2pa p).toNat < 4194304) :=
    List.filter_congr fun p _ => by rw [decide_eq_decide, below_one_iff]
  have hhigh : l.filter (¬ Below 1 ·) = l.filter (fun p => ¬ (page2pa p).toNat < 4194304) :=
    List.filter_congr fun p _ => by rw [decide_eq_decide, below_one_iff]
  rw [hlow, hhigh] at hchain
  have hsame : s'.pages = pages := by rw [hs']
  refine ⟨s', _, _, hrun, rfl, rfl, hchain, ?_, hchain.nodup, ?_, ?_, ?_⟩
  · exact filter_parts_perm (fun p => (page2pa p).toNat < 4194304) l
  · intro p
    rw [hsame]
    exact ⟨hlinks.ref p, hlinks.other p⟩
  · rw [hsame]
    exact hs'
  · intro flags rs t hle halloc
    have hlonger := hle.trans (List.sublist_append_left _
      (l.filter (fun p => ¬ (page2pa p).toNat < 4194304))).length_le
    rw [pageAllocs_take hchain hlonger halloc, List.take_append_of_le_length hle]

/-- A page above 4 MB in front of one below. -/
def highFirst : Machine :=
  { pageInitSample with
    npages := 2048
    pages := fun p => { ppLink := if p = 1024 then some 3 else none, ppRef := 0 }
    pageFreeList := some 1024 }

theorem free_list_low_first_two :
    ∃ s', (relinkFreeList 1).run highFirst = .ok ((), s') ∧
      Chain (fun p => (s'.pages p).ppLink) s'.pageFreeList [3, 1024] := by
  obtain ⟨s', low, high, hrun, hlow, hhigh, hchain, -⟩ :=
    free_list_low_first highFirst [1024, 3] ⟨rfl, rfl, rfl⟩ (by decide)
  refine ⟨s', hrun, ?_⟩
  have hparts : low ++ high = [3, 1024] := by
    rw [hlow, hhigh]
    decide
  rw [← hparts]
  exact hchain

end Jos
