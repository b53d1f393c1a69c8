import Jos.Lib.Chain

/-!
Parts of singly linked lists, from one cell to another. A cell holds the node that comes next; some
cells are links of nodes, others are variables. Storing a node into the cell where a part ends makes
the part longer, whichever kind of cell that is.
-/

variable {ι κ : Type} {link : ι → κ} {h h' : κ → Option ι} {a b c : κ} {l m : List ι} {p : ι}

/-- From the cell `a` on the nodes of `l` follow, and then the content of the cell `b`. -/
def ListSegment (link : ι → κ) (h : κ → Option ι) : κ → List ι → κ → Prop
  | a, [], b => a = b
  | a, p :: l, b => h a = some p ∧ ListSegment link h (link p) l b

namespace ListSegment

/-- The last of the cells `a` and the links of `l` is the one where the part ends. -/
theorem end_eq (hs : ListSegment link h a l b) : b = (l.getLast?.map link).getD a := by
  induction l generalizing a with
  | nil => exact hs.symm
  | cons p l ih =>
    rw [ih hs.2]
    cases l with
    | nil => rfl
    | cons q l =>
      rw [List.getLast?_cons_cons, List.getLast?_eq_some_getLast (List.cons_ne_nil q l)]
      rfl

theorem end_mem (hs : ListSegment link h a l b) : b ∈ a :: l.map link := by
  rw [hs.end_eq]
  cases hlast : l.getLast? with
  | none => exact List.mem_cons_self
  | some p => exact List.mem_cons_of_mem _ (List.mem_map_of_mem (List.mem_of_getLast? hlast))

/-- The part does not read the cell where it ends, unless that stands in it twice. -/
theorem congr (hs : ListSegment link h a l b) (hnodup : (a :: l.map link).Nodup)
    (hcell : ∀ c ∈ a :: l.map link, c ≠ b → h' c = h c) : ListSegment link h' a l b := by
  induction l generalizing a with
  | nil => exact hs
  | cons p l ih =>
    obtain ⟨hout, hrest⟩ := List.nodup_cons.mp hnodup
    refine ⟨?_, ih hs.2 hrest fun c hc => hcell c (List.mem_cons_of_mem a hc)⟩
    rw [hcell a List.mem_cons_self (ne_of_mem_of_not_mem hs.2.end_mem hout).symm]
    exact hs.1

theorem append (hs : ListSegment link h a l b) (hm : ListSegment link h b m c) :
    ListSegment link h a (l ++ m) c := by
  induction l generalizing a with
  | nil =>
    cases hs
    exact hm
  | cons p l ih => exact ⟨hs.1, ih hs.2⟩

theorem chain (hs : ListSegment link h a l b) (hm : Chain (fun p => h (link p)) (h b) m) :
    Chain (fun p => h (link p)) (h a) (l ++ m) := by
  induction l generalizing a with
  | nil =>
    cases hs
    exact hm
  | cons p l ih => exact ⟨hs.1, ih hs.2⟩

section

variable [DecidableEq κ]

/-- Storing where the part ends leaves the part as it is. -/
theorem store (hs : ListSegment link h a l b) (hnodup : (a :: l.map link).Nodup) (v : Option ι) :
    ListSegment link (Function.update h b v) a l b :=
  hs.congr hnodup fun _ _ hne => Function.update_of_ne hne v h

theorem push (hs : ListSegment link h a l b) (hnodup : (a :: l.map link).Nodup) (p : ι) :
    ListSegment link (Function.update h b (some p)) a (l ++ [p]) (link p) :=
  (hs.store hnodup (some p)).append ⟨Function.update_self b (some p) h, rfl⟩

/-- Storing into a cell that belongs to no cell of the part leaves it as it is. -/
theorem store_other (hs : ListSegment link h a l b) (hnodup : (a :: l.map link).Nodup)
    (hc : c ∉ a :: l.map link) (v : Option ι) : ListSegment link (Function.update h c v) a l b :=
  hs.congr hnodup fun _ hmem _ => Function.update_of_ne (ne_of_mem_of_not_mem hmem hc) v h

/-- The first node of a list is moved behind a part, next to another part. -/
theorem move {a' b' : κ} {l' rest : List ι} (hs : ListSegment link h a l b)
    (hs' : ListSegment link h a' l' b') (hrest : Chain (fun p => h (link p)) (h (link p)) rest)
    (hnodup : (a :: l.map link ++ a' :: l'.map link ++ (p :: rest).map link).Nodup) :
    ListSegment link (Function.update h b (some p)) a (l ++ [p]) (link p) ∧
    ListSegment link (Function.update h b (some p)) a' l' b' ∧
    Chain (fun q => Function.update h b (some p) (link q))
      (Function.update h b (some p) (link p)) rest := by
  obtain ⟨hparts, -, hleft⟩ := List.nodup_append.mp hnodup
  obtain ⟨hpart, hpart', hother⟩ := List.nodup_append.mp hparts
  have hmem := hs.end_mem
  have hb : b ∉ a' :: l'.map link := fun hmem' => hother b hmem b hmem' rfl
  have hsame : ∀ q ∈ p :: rest, Function.update h b (some p) (link q) = h (link q) := by
    intro q hq
    have hne := hleft b (List.mem_append_left _ hmem) (link q) (List.mem_map_of_mem hq)
    exact Function.update_of_ne hne.symm _ _
  refine ⟨hs.push hpart p, hs'.store_other hpart' hb (some p), ?_⟩
  rw [hsame p List.mem_cons_self]
  exact Chain.congr hrest fun q hq => hsame q (List.mem_cons_of_mem p hq)

/-- Two parts become one list: the second is ended, and the first leads to it. -/
theorem join {a' b' : κ} {l' : List ι} (hs : ListSegment link h a l b)
    (hs' : ListSegment link h a' l' b')
    (hnodup : (a :: l.map link ++ a' :: l'.map link).Nodup) :
    Chain (fun p => Function.update (Function.update h b' none) b
        (Function.update h b' none a') (link p))
      (Function.update (Function.update h b' none) b (Function.update h b' none a') a)
      (l ++ l') := by
  obtain ⟨hpart, hpart', hother⟩ := List.nodup_append.mp hnodup
  have hb' : b' ∉ a :: l.map link := fun hmem => hother b' hmem b' hs'.end_mem rfl
  have hended := (hs'.store hpart' none).chain (m := [])
    (show _ = none from Function.update_self b' none h)
  rw [List.append_nil] at hended
  refine ((hs.store_other hpart hb' none).store hpart _).chain ?_
  rw [Function.update_self]
  refine Chain.congr hended fun p hp => ?_
  have hne : link p ≠ b := by
    intro heq
    exact hother b hs.end_mem (link p) (List.mem_cons_of_mem _ (List.mem_map_of_mem hp)) heq.symm
  exact Function.update_of_ne hne _ _

end

end ListSegment
