import Jos.CheckFreeList
import Jos.MapRegion

/-!
The self-tests of `mem_init` play with three pages: they free and allocate them, map them behind
`kern_pgdir` and take one of them for a page table. `Sandbox` is what they leave in those pages,
and the operations below are what `kern/pmap.c` does to it. `Holds` relates it to a machine.
-/

namespace Jos

/-- The three pages of a self-test. Page 0 is the one that becomes a page table. -/
structure Sandbox where
  /-- The part of the free list that the test can see. -/
  free : List (Fin 3)
  ref : Fin 3 → UInt16
  /-- The entry of `kern_pgdir` that points to page 0. -/
  dir : Option (Fin 1024)
  /-- The first two entries of that page table: a page and its permissions. -/
  tab : Fin 2 → Option (Fin 3 × UInt32)
  /-- The first words of the pages, where the test knows them. -/
  word : Fin 3 → Option UInt32

namespace Sandbox

theorem neZero_pages : NeZero 3 := ⟨by decide⟩

theorem neZero_entries : NeZero 1024 := ⟨by decide⟩

-- The definitions below name these facts, so that page 0 and entry 0 are spelled alike everywhere.
attribute [local instance] neZero_pages neZero_entries

variable (b : Sandbox) (i : Fin 3) (t : Fin 2)

def setRef (r : UInt16) : Sandbox := { b with ref := Function.update b.ref i r }

/-- `page_alloc(0)` that returns page `i`. -/
def take : Option Sandbox :=
  match b.free with
  | [] => none
  | j :: l => if j = i then some { b with free := l, ref := Function.update b.ref i 0 } else none

/-- `page_free`. -/
def put : Option Sandbox :=
  if b.ref i = 0 ∧ i ∉ b.free then some { b with free := i :: b.free } else none

/-- `page_decref`. -/
def drop : Option Sandbox :=
  if i ∈ b.free then none
  else if b.ref i - 1 = 0 then (b.setRef i (b.ref i - 1)).put i
  else some (b.setRef i (b.ref i - 1))

/-- An entry of the page table is written. -/
def setEntry (v : Option (Fin 3 × UInt32)) : Sandbox :=
  { b with tab := Function.update b.tab t v, word := Function.update b.word 0 none }

/-- `pgdir_walk` for an address behind the entry `d`, which creates the page table. -/
def walk (d : Fin 1024) : Option Sandbox :=
  match b.dir with
  | some d' => if d' = d then some b else none
  | none =>
    match b.free with
    | [] => none
    | i :: l =>
      if i = 0 then
        some
          { free := l
            ref := Function.update b.ref 0 1
            dir := some d
            tab := fun _ => none
            word := Function.update b.word 0 none }
      else none

/-- `page_remove` of the address behind the entry `t`. -/
def remove : Option Sandbox :=
  match b.tab t with
  | none => none
  | some (j, _) => if b.dir = some 0 then (b.drop j).map fun b => b.setEntry t none else none

/-- `page_insert` of page `i` at the address behind the entry `t`. -/
def insert (perm : UInt32) : Option Sandbox :=
  (b.walk 0).bind fun b =>
    match b.tab t with
    | none => some ((b.setEntry t (some (i, perm))).setRef i (b.ref i + 1))
    | some (j, _) =>
      if j = i then some (b.setEntry t (some (i, perm)))
      else (b.remove t).map fun b => (b.setEntry t (some (i, perm))).setRef i (b.ref i + 1)

section Results

variable {b : Sandbox} {i : Fin 3} {t : Fin 2} {b' : Sandbox} {d : Fin 1024}

theorem take_eq_some (hb : b.take i = some b') : ∃ l, b.free = i :: l ∧
    b' = { b with free := l, ref := Function.update b.ref i 0 } := by
  unfold take at hb
  split at hb
  · cases hb
  · rename_i j l hfree
    split at hb
    · rename_i hji
      subst hji
      exact ⟨l, hfree, (Option.some.inj hb).symm⟩
    · cases hb

theorem walk_dir (hb : b.walk d = some b') : b'.dir = some d := by
  unfold walk at hb
  split at hb
  · rename_i d' hdir
    split at hb
    · rename_i hd
      obtain rfl := Option.some.inj hb
      rw [hdir, hd]
    · cases hb
  · split at hb
    · cases hb
    · split at hb
      · obtain rfl := Option.some.inj hb
        rfl
      · cases hb

theorem drop_dir (hb : b.drop i = some b') : b'.dir = b.dir := by
  unfold drop put at hb
  split at hb
  · cases hb
  · split at hb
    · split at hb
      · obtain rfl := Option.some.inj hb
        rfl
      · cases hb
    · obtain rfl := Option.some.inj hb
      rfl

theorem remove_dir (hb : b.remove t = some b') : b'.dir = b.dir := by
  unfold remove at hb
  split at hb
  · cases hb
  · split at hb
    · obtain ⟨b₁, hdrop, rfl⟩ := Option.map_eq_some_iff.mp hb
      have hsame : b₁.dir = b.dir := drop_dir hdrop
      exact hsame
    · cases hb

end Results

/-- The entry `t` of the page table, with the pages `pp`. -/
def entry (pp : Fin 3 → Nat) : UInt32 :=
  match b.tab t with
  | none => 0
  | some (j, perm) => newPte (pp j) perm

end Sandbox

/-- The entry of a page table that belongs to the entry `t` of the sandbox. -/
def Sandbox.idx (t : Fin 2) : Fin 1024 := Fin.castLE (by decide) t

/-- The three pages `pp` of a self-test in the machine `s₀`, whose `kern_pgdir` is in frame `kd`;
`tail` is the rest of the free list. -/
structure TestPages (s₀ : Machine) (kd : Nat) (pp : Fin 3 → Nat) (tail : List Nat) : Prop where
  inj : Function.Injective pp
  lt : ∀ i, pp i < s₀.npages
  window : ∀ i, InWindow s₀ (pp i)
  kernPgdir : s₀.kernPgdir = kva kd
  dirWindow : InWindow s₀ kd
  dirApart : ∀ i, pp i ≠ kd
  tailApart : ∀ i, pp i ∉ tail
  /-- The first two entries of `kern_pgdir` are free for the test. -/
  empty : ∀ d : Fin 1024, d.val < 2 → s₀.mem kd d = 0

/-- The sandbox `b` as it stands in the machine `s`. Nothing else has changed since `s₀`. -/
structure Sandbox.Holds (s₀ : Machine) (kd : Nat) (pp : Fin 3 → Nat) (tail : List Nat)
    (b : Sandbox) (s : Machine) : Prop where
  rest : PagesOnly s₀ s
  chain : Chain (fun p => (s.pages p).ppLink) s.pageFreeList (b.free.map pp ++ tail)
  unlinked : ∀ i, i ∉ b.free → (s.pages (pp i)).ppLink = none
  ref : ∀ i, (s.pages (pp i)).ppRef = b.ref i
  pages : ∀ q, (∀ i, q ≠ pp i) → s.pages q = s₀.pages q
  dir : ∀ d, s.mem kd d = if b.dir = some d then page2pa (pp 0) ||| tableFlags else s₀.mem kd d
  table : b.dir ≠ none → ∀ j : Fin 1024,
    s.mem (pp 0) j = if h : j.val < 2 then b.entry ⟨j.val, h⟩ pp else 0
  perm : ∀ t i perm, b.tab t = some (i, perm) → perm.toNat < 4096
  word : ∀ i w, b.word i = some w → s.mem (pp i) 0 = w
  frames : ∀ g, g ≠ kd → (∀ i, g ≠ pp i) → s.mem g = s₀.mem g

variable {s₀ s s' : Machine} {kd : Nat} {pp : Fin 3 → Nat} {tail : List Nat} {b b' : Sandbox}
  {i : Fin 3} {t : Fin 2}

theorem TestPages.not_mem (hp : TestPages s₀ kd pp tail) (hi : i ∉ b.free) :
    pp i ∉ b.free.map pp ++ tail := by
  rw [List.mem_append, List.mem_map_of_injective hp.inj]
  exact fun hmem => hmem.elim hi (hp.tailApart i)

namespace Sandbox.Holds

section Updates

variable (hp : TestPages s₀ kd pp tail) (h : Holds s₀ kd pp tail b s)

include hp h

theorem lt (i : Fin 3) : pp i < s.npages := by
  rw [h.rest.npages]
  exact hp.lt i

theorem setRef (i : Fin 3) (r : UInt16) :
    Holds s₀ kd pp tail (b.setRef i r) (s.setRef (pp i) r) := by
  have hlink (q : Nat) : ((s.setRef (pp i) r).pages q).ppLink = (s.pages q).ppLink := by
    by_cases hq : q = pp i
    · subst hq
      simp [Machine.setRef]
    · simp [Machine.setRef, hq]
  constructor
  · exact h.rest.trans rfl
  · exact h.chain.congr fun q _ => hlink q
  · intro j hj
    rw [hlink]
    exact h.unlinked j hj
  · intro j
    by_cases hj : j = i
    · subst hj
      simp [Machine.setRef, Sandbox.setRef]
    · have hne : pp j ≠ pp i := fun heq => hj (hp.inj heq)
      simp [Machine.setRef, Sandbox.setRef, hj, hne, h.ref j]
  · intro q hq
    rw [← h.pages q hq]
    simp [Machine.setRef, hq i]
  · exact h.dir
  · exact h.table
  · exact h.perm
  · exact h.word
  · exact h.frames

/-- `page_alloc` takes the first page of the sandbox. -/
theorem takePage (hb : b.take i = some b') :
    s.pageFreeList = some (pp i) ∧ Holds s₀ kd pp tail b' (s.takePage (pp i)) := by
  obtain ⟨l, hfree, rfl⟩ := take_eq_some hb
  have hchain := h.chain
  rw [hfree, List.map_cons, List.cons_append] at hchain
  have hother {q : Nat} (hq : q ≠ pp i) : (s.takePage (pp i)).pages q = s.pages q := by
    simp [Machine.takePage, hq]
  refine ⟨hchain.1, ?_⟩
  constructor
  · exact h.rest.trans rfl
  · refine hchain.pop fun q hq => ?_
    rw [hother (ne_of_mem_of_not_mem hq hchain.not_mem_tail)]
  · intro j hj
    by_cases hji : j = i
    · subst hji
      simp [Machine.takePage]
    · rw [hother fun heq => hji (hp.inj heq)]
      exact h.unlinked j (by rw [hfree]; simp [hji, hj])
  · intro j
    by_cases hji : j = i
    · subst hji
      simp [Machine.takePage]
    · rw [hother fun heq => hji (hp.inj heq)]
      simp [hji, h.ref j]
  · intro q hq
    rw [hother (hq i)]
    exact h.pages q hq
  · exact h.dir
  · exact h.table
  · exact h.perm
  · exact h.word
  · exact h.frames

/-- `page_free` puts a page back. -/
theorem putPage (hb : b.put i = some b') : Holds s₀ kd pp tail b' (s.putPage (pp i)) := by
  unfold Sandbox.put at hb
  split at hb
  · rename_i hok
    obtain rfl := Option.some.inj hb
    have hmem := hp.not_mem hok.2
    have hother {q : Nat} (hq : q ≠ pp i) : (s.putPage (pp i)).pages q = s.pages q := by
      simp [Machine.putPage, hq]
    constructor
    · exact h.rest.trans rfl
    · refine h.chain.push (fun q hq => ?_) ?_
      · rw [hother (ne_of_mem_of_not_mem hq hmem)]
      · simp [Machine.putPage]
    · intro j hj
      have hji : j ≠ i := fun heq => hj (by simp [heq])
      rw [hother fun heq => hji (hp.inj heq)]
      exact h.unlinked j fun hin => hj (List.mem_cons_of_mem i hin)
    · intro j
      by_cases hji : j = i
      · subst hji
        simp [Machine.putPage, h.ref j]
      · rw [hother fun heq => hji (hp.inj heq)]
        exact h.ref j
    · intro q hq
      rw [hother (hq i)]
      exact h.pages q hq
    · exact h.dir
    · exact h.table
    · exact h.perm
    · exact h.word
    · exact h.frames
  · cases hb

omit hp in
/-- Memory changes; the records of the pages do not. -/
theorem withMem {m : Mem} (hfree : b'.free = b.free) (href : b'.ref = b.ref)
    (hdir : ∀ d, m kd d = if b'.dir = some d then page2pa (pp 0) ||| tableFlags else s₀.mem kd d)
    (htable : b'.dir ≠ none → ∀ j : Fin 1024,
      m (pp 0) j = if h : j.val < 2 then b'.entry ⟨j.val, h⟩ pp else 0)
    (hperm : ∀ t i perm, b'.tab t = some (i, perm) → perm.toNat < 4096)
    (hword : ∀ i w, b'.word i = some w → m (pp i) 0 = w)
    (hframes : ∀ g, g ≠ kd → (∀ i, g ≠ pp i) → m g = s.mem g) :
    Holds s₀ kd pp tail b' (s.setMem m) := by
  constructor
  · exact h.rest.trans rfl
  · rw [hfree]
    exact h.chain
  · rw [hfree]
    exact h.unlinked
  · rw [href]
    exact h.ref
  · exact h.pages
  · exact hdir
  · exact htable
  · exact hperm
  · exact hword
  · intro g hg hpages
    exact (hframes g hg hpages).trans (h.frames g hg hpages)

/-- An entry of the page table is written. -/
theorem setEntry {v : Option (Fin 3 × UInt32)} (hdir : b.dir ≠ none)
    (hperm : ∀ j perm, v = some (j, perm) → perm.toNat < 4096) :
    Holds s₀ kd pp tail (b.setEntry t v) (s.setMem (s.mem.setWord (pp 0) (idx t)
      ((b.setEntry t v).entry t pp))) := by
  have hframe {g : Nat} (hg : g ≠ pp 0) (w : UInt32) : s.mem.setWord (pp 0) (idx t) w g = s.mem g :=
    Mem.setWord_frame _ _ _ hg
  have hother (t' : Fin 2) (ht : t' ≠ t) : (b.setEntry t v).entry t' pp = b.entry t' pp := by
    simp [Sandbox.entry, Sandbox.setEntry, ht]
  refine h.withMem rfl rfl ?_ ?_ ?_ ?_ ?_
  · intro d
    rw [hframe (hp.dirApart 0).symm]
    exact h.dir d
  · intro _ j
    by_cases hj : j = idx t
    · subst hj
      have hlt : (idx t).val < 2 := t.isLt
      rw [Mem.setWord_same, dif_pos hlt]
      rfl
    · rw [Mem.setWord_of_ne _ _ fun _ => hj, h.table hdir j]
      by_cases hlt : j.val < 2
      · rw [dif_pos hlt, dif_pos hlt, hother]
        rintro rfl
        exact hj rfl
      · rw [dif_neg hlt, dif_neg hlt]
  · intro t' j perm htab
    by_cases ht : t' = t
    · subst ht
      exact hperm j perm (by simpa [Sandbox.setEntry] using htab)
    · exact h.perm t' j perm (by simpa [Sandbox.setEntry, ht] using htab)
  · intro j w hw
    have hj : j ≠ 0 := by
      rintro rfl
      simp [Sandbox.setEntry] at hw
    rw [hframe fun heq => hj (hp.inj heq)]
    exact h.word j w (by simpa [Sandbox.setEntry, hj] using hw)
  · exact fun g _ hpages => hframe (hpages 0) _

/-- The entry `d` of `kern_pgdir` is pointed at the cleared page 0. -/
theorem setDir {d : Fin 1024} (hnone : b.dir = none) (hzero : ∀ j, s.mem (pp 0) j = 0) :
    Holds s₀ kd pp tail
      { b with dir := some d, tab := fun _ => none, word := Function.update b.word 0 none }
      (s.setMem (s.mem.setWord kd d (page2pa (pp 0) ||| tableFlags))) := by
  have hne := hp.dirApart
  refine h.withMem rfl rfl ?_ ?_ ?_ ?_ ?_
  · intro d'
    by_cases hd : d' = d
    · subst hd
      simp [Mem.setWord_same]
    · have hold := h.dir d'
      rw [hnone, if_neg (by simp)] at hold
      rw [Mem.setWord_of_ne _ _ fun _ => hd, hold,
        if_neg fun heq => hd (Option.some.inj heq).symm]
  · intro _ j
    rw [Mem.setWord_frame _ _ _ (hne 0), hzero]
    simp [Sandbox.entry]
  · intro t i perm htab
    cases htab
  · intro i w hw
    have hi : i ≠ 0 := by
      rintro rfl
      simp at hw
    rw [Mem.setWord_frame _ _ _ (hne i)]
    exact h.word i w (by simpa [hi] using hw)
  · exact fun g hg _ => Mem.setWord_frame _ _ _ hg

/-- An entry of `kern_pgdir` is cleared. -/
theorem clearDir {d : Fin 1024} (hdir : b.dir = some d) (hd : d.val < 2) :
    Holds s₀ kd pp tail { b with dir := none } (s.setMem (s.mem.setWord kd d 0)) := by
  have hne := hp.dirApart
  refine h.withMem rfl rfl ?_ ?_ ?_ ?_ ?_
  · intro d'
    rw [if_neg (by simp)]
    by_cases hd' : d' = d
    · subst hd'
      rw [Mem.setWord_same, hp.empty d' hd]
    · rw [Mem.setWord_of_ne _ _ fun _ => hd', h.dir, hdir,
        if_neg fun heq => hd' (Option.some.inj heq).symm]
  · exact fun hno => absurd rfl hno
  · exact h.perm
  · intro i w hw
    rw [Mem.setWord_frame _ _ _ (hne i)]
    exact h.word i w hw
  · exact fun g hg _ => Mem.setWord_frame _ _ _ hg

/-- A page that is no page table is overwritten. -/
theorem setPage {m : Mem} {w : Option UInt32} (hi : i = 0 → b.dir = none)
    (hframe : ∀ g, g ≠ pp i → m g = s.mem g) (hword : ∀ v, w = some v → m (pp i) 0 = v) :
    Holds s₀ kd pp tail { b with word := Function.update b.word i w } (s.setMem m) := by
  refine h.withMem rfl rfl ?_ ?_ ?_ ?_ ?_
  · intro d
    rw [hframe kd (hp.dirApart i).symm]
    exact h.dir d
  · intro hdir j
    have hne : pp 0 ≠ pp i := fun heq => hdir (hi (hp.inj heq).symm)
    rw [hframe _ hne]
    exact h.table hdir j
  · exact h.perm
  · intro j v hv
    by_cases hj : j = i
    · subst hj
      exact hword v (by simpa using hv)
    · rw [hframe _ fun heq => hj (hp.inj heq)]
      exact h.word j v (by simpa [hj] using hv)
  · exact fun g _ hpages => hframe g (hpages i)

omit hp in
theorem flush (va : UInt32) : Holds s₀ kd pp tail b (s.flush va) :=
  ⟨h.rest.trans rfl, h.chain, h.unlinked, h.ref, h.pages, h.dir, h.table, h.perm, h.word, h.frames⟩

/-- `page_decref` of a page of the sandbox. -/
theorem decref (hb : b.drop i = some b') : Holds s₀ kd pp tail b' (s.decref (pp i)) := by
  have href := h.ref i
  have hset := h.setRef hp i (b.ref i - 1)
  unfold Sandbox.drop at hb
  split at hb
  · cases hb
  · split at hb
    · rename_i hzero
      have heq : s.decref (pp i) = (s.setRef (pp i) (b.ref i - 1)).putPage (pp i) := by
        simp [Machine.decref, Machine.putPage, Machine.setRef, href, hzero]
      rw [heq]
      exact hset.putPage hp hb
    · rename_i hpos
      have heq : s.decref (pp i) = s.setRef (pp i) (b.ref i - 1) := by
        simp [Machine.decref, Machine.setRef, href, hpos]
      obtain rfl := Option.some.inj hb
      rw [heq]
      exact hset

omit hp in
/-- `page_decref` finds no link in the page. -/
theorem drop_link (hb : b.drop i = some b') :
    (s.pages (pp i)).ppRef - 1 = 0 → (s.pages (pp i)).ppLink = none := by
  intro _
  apply h.unlinked
  intro hmem
  rw [Sandbox.drop, if_pos hmem] at hb
  cases hb

end Updates

end Sandbox.Holds

end Jos
