import Mathlib

/-!
Intrusive singly linked lists: the nodes live in an array and each one stores
the node after it. `Chain link head l` says that following `link` from `head`
visits exactly the nodes of `l`, in order, and then ends.
-/

variable {ι : Type} {link link' : ι → Option ι} {head : Option ι} {l l' : List ι}

def Chain (link : ι → Option ι) : Option ι → List ι → Prop
  | head, [] => head = none
  | head, a :: l => head = some a ∧ Chain link (link a) l

namespace Chain

@[simp] theorem nil_iff : Chain link head [] ↔ head = none := Iff.rfl

@[simp] theorem cons_iff {a : ι} :
    Chain link head (a :: l) ↔ head = some a ∧ Chain link (link a) l := Iff.rfl

theorem head_eq (h : Chain link head l) : head = l.head? := by
  cases l with
  | nil => exact h
  | cons a l => exact h.1

theorem none_iff (h : Chain link none l) : l = [] := by
  cases l with
  | nil => rfl
  | cons a l => exact absurd h.1 (by simp)

theorem some_iff {a : ι} (h : Chain link (some a) l) :
    ∃ rest, l = a :: rest ∧ Chain link (link a) rest := by
  cases l with
  | nil => exact absurd h (by simp)
  | cons b l =>
    obtain ⟨hb, hl⟩ := h
    cases hb
    exact ⟨l, rfl, hl⟩

/-- A head determines the list reached from it. -/
theorem unique (h : Chain link head l) (h' : Chain link head l') : l = l' := by
  induction l generalizing head l' with
  | nil =>
    rw [nil_iff.mp h] at h'
    exact (none_iff h').symm
  | cons a l ih =>
    obtain ⟨rfl, hl⟩ := h
    obtain ⟨rest, rfl, hrest⟩ := some_iff h'
    rw [ih hl hrest]

/-- From every node of a chain the chain of the remaining nodes starts. -/
theorem suffix {a : ι} {pre post : List ι} (h : Chain link head (pre ++ a :: post)) :
    Chain link (some a) (a :: post) := by
  induction pre generalizing head with
  | nil => exact ⟨rfl, h.2⟩
  | cons b pre ih => exact ih h.2

/-- A finite chain has no repeated node: the lists reached from two
occurrences of a node would have different lengths. -/
theorem nodup (h : Chain link head l) : l.Nodup := by
  induction l generalizing head with
  | nil => exact List.nodup_nil
  | cons a l ih =>
    refine List.nodup_cons.mpr ⟨?_, ih h.2⟩
    intro hmem
    obtain ⟨pre, post, rfl⟩ := List.append_of_mem hmem
    have hinner : Chain link (some a) (a :: post) := suffix h.2
    have houter : Chain link (some a) (a :: (pre ++ a :: post)) := ⟨rfl, h.2⟩
    have hlen := congrArg List.length (unique hinner houter)
    simp only [List.length_cons, List.length_append] at hlen
    omega

/-- A chain survives every change of links outside its nodes. -/
theorem congr (h : Chain link head l) (hlink : ∀ a ∈ l, link' a = link a) :
    Chain link' head l := by
  induction l generalizing head with
  | nil => exact h
  | cons a l ih =>
    refine ⟨h.1, ?_⟩
    rw [hlink a List.mem_cons_self]
    exact ih h.2 (fun b hb => hlink b (List.mem_cons_of_mem a hb))

/-- Pushing a node in front, when no link inside the chain changes. -/
theorem push {a : ι} (h : Chain link head l)
    (hlink : ∀ b ∈ l, link' b = link b) (hnew : link' a = head) :
    Chain link' (some a) (a :: l) := by
  refine ⟨rfl, ?_⟩
  rw [hnew]
  exact h.congr hlink

/-- Popping the first node. -/
theorem pop {a : ι} (h : Chain link head (a :: l)) (hlink : ∀ b ∈ l, link' b = link b) :
    Chain link' (link a) l :=
  Chain.congr h.2 hlink

theorem not_mem_tail {a : ι} (h : Chain link head (a :: l)) : a ∉ l :=
  (List.nodup_cons.mp h.nodup).1

/-- Only the last node of a chain links to nothing. -/
theorem link_none_iff {a : ι} (h : Chain link head l) (ha : a ∈ l) :
    link a = none ↔ l.getLast? = some a := by
  induction l generalizing head with
  | nil => cases ha
  | cons b l ih =>
    cases l with
    | nil =>
      obtain rfl := List.mem_singleton.mp ha
      have hnone : link a = none := h.2
      simp [hnone]
    | cons c l =>
      rw [List.getLast?_cons_cons]
      rcases List.mem_cons.mp ha with rfl | ha
      · have hlink : link a = some c := h.2.1
        have hnot : a ∉ c :: l := (List.nodup_cons.mp h.nodup).1
        constructor
        · intro hnone
          rw [hlink] at hnone
          cases hnone
        · intro hlast
          exact absurd (List.mem_of_getLast? hlast) hnot
      · exact ih h.2 ha

end Chain

-- A list under construction: the link of its last node is still open.

/-- Following `link` from `head` visits the nodes of `l` in order; where the
last one links to is left open. -/
def OpenChain (link : ι → Option ι) : Option ι → List ι → Prop
  | _, [] => True
  | head, a :: l => head = some a ∧ OpenChain link (link a) l

namespace OpenChain

/-- Setting the open link to the head of another open list joins the two. -/
theorem join {q : ι} {m : List ι} (h : OpenChain link head (l ++ [q]))
    (hlink : ∀ a ∈ l, link' a = link a) (hm : OpenChain link' (link' q) m) :
    OpenChain link' head (l ++ [q] ++ m) := by
  induction l generalizing head with
  | nil => exact ⟨h.1, hm⟩
  | cons a l ih =>
    refine ⟨h.1, ?_⟩
    rw [hlink a List.mem_cons_self]
    exact ih h.2 fun b hb => hlink b (List.mem_cons_of_mem a hb)

end OpenChain
