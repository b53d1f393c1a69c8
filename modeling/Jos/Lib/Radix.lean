import Mathlib

/-!
Two-level tables in an array of frames. The entries of a root frame name further frames,
whose entries are the values of the table. Some entries of the root are in use as
pointers to tables; the others may name any frame, also the root itself.
-/

namespace Radix

variable {F I W A : Type}

/-- How an entry is read: which table an entry of the root names, and which value an
entry of a table is. -/
structure Format (F W A : Type) where
  next : W → Option F
  leaf : W → Option A

namespace Format

variable (fmt : Format F W A)

def lookup (m : F → I → W) (root : F) (n : I × I) : Option A :=
  (fmt.next (m root n.1)).bind fun g => fmt.leaf (m g n.2)

/-- The tables that the entries `d` of the root with `live d` name are apart from the
root and from each other. -/
structure Tree (live : I → Prop) (m : F → I → W) (root : F) : Prop where
  ne_root : ∀ d g, live d → fmt.next (m root d) = some g → g ≠ root
  inj : ∀ d d' g, live d → live d' → fmt.next (m root d) = some g →
    fmt.next (m root d') = some g → d = d'

/-- From `m` to `m'` the entry `t` of the frame `g` becomes `v`. -/
structure EntrySet [DecidableEq I] (m m' : F → I → W) (g : F) (t : I) (v : W) : Prop where
  frame : m' g = Function.update (m g) t v
  other : ∀ f, f ≠ g → m' f = m f

/-- From `m` to `m'` the frame `g` becomes an empty table behind the entry `d` of the root,
which was empty. -/
structure TableAdded [DecidableEq I] (live : I → Prop) (m m' : F → I → W) (root g : F) (d : I) :
    Prop where
  absent : fmt.next (m root d) = none
  fresh : ∀ d', live d' → fmt.next (m root d') ≠ some g
  ne_root : g ≠ root
  entry : ∃ w, fmt.next w = some g ∧ m' root = Function.update (m root) d w
  empty : ∀ t, fmt.leaf (m' g t) = none
  other : ∀ f, f ≠ root → f ≠ g → m' f = m f

end Format

variable [DecidableEq I] {fmt : Format F W A} {live : I → Prop} {m m' : F → I → W}
  {root g : F} {d t : I} {v : W} {n : I × I}

namespace Format.Tree

/-- Setting an entry of a table changes one value. -/
theorem lookup_entrySet (h : fmt.Tree live m root) (hd : live d)
    (hg : fmt.next (m root d) = some g) (hset : EntrySet m m' g t v) (hn : live n.1) :
    fmt.lookup m' root n = Function.update (fmt.lookup m root) (d, t) (fmt.leaf v) n := by
  have hroot : m' root = m root := hset.other root (h.ne_root d g hd hg).symm
  by_cases hnd : n = (d, t)
  · subst hnd
    rw [Function.update_self, lookup, hroot, hg, Option.bind_some, hset.frame,
      Function.update_self]
  · rw [Function.update_of_ne hnd, lookup, lookup, hroot]
    cases hg' : fmt.next (m root n.1) with
    | none => rfl
    | some g' =>
      rw [Option.bind_some, Option.bind_some]
      by_cases hgg : g' = g
      · subst hgg
        have hdn : n.1 = d := h.inj n.1 d g' hn hd hg' hg
        have hnt : n.2 ≠ t := fun ht => hnd (Prod.ext hdn ht)
        rw [hset.frame, Function.update_of_ne hnt]
      · rw [hset.other g' hgg]

theorem entrySet (h : fmt.Tree live m root) (hroot : g ≠ root) (hset : EntrySet m m' g t v) :
    fmt.Tree live m' root := by
  have hsame : m' root = m root := hset.other root hroot.symm
  refine ⟨?_, ?_⟩
  · intro d g' hd hg'
    rw [hsame] at hg'
    exact h.ne_root d g' hd hg'
  · intro d d' g' hd hd' hg' hg''
    rw [hsame] at hg' hg''
    exact h.inj d d' g' hd hd' hg' hg''

/-- The entries of the root after a table was added. -/
theorem next_added (hadd : fmt.TableAdded live m m' root g d) (d' : I) :
    fmt.next (m' root d') = if d' = d then some g else fmt.next (m root d') := by
  obtain ⟨w, hw, hroot⟩ := hadd.entry
  rw [hroot]
  by_cases hd : d' = d
  · rw [if_pos hd, hd, Function.update_self, hw]
  · rw [if_neg hd, Function.update_of_ne hd]

/-- Adding an empty table changes no value. -/
theorem lookup_added (h : fmt.Tree live m root) (hadd : fmt.TableAdded live m m' root g d)
    (hn : live n.1) : fmt.lookup m' root n = fmt.lookup m root n := by
  rw [lookup, lookup, next_added hadd]
  by_cases hnd : n.1 = d
  · rw [if_pos hnd, hnd, hadd.absent, Option.bind_some, hadd.empty, Option.bind_none]
  · rw [if_neg hnd]
    cases hg' : fmt.next (m root n.1) with
    | none => rfl
    | some g' =>
      have hgg : g' ≠ g := fun heq => hadd.fresh n.1 hn (heq ▸ hg')
      rw [Option.bind_some, Option.bind_some, hadd.other g' (h.ne_root n.1 g' hn hg') hgg]

theorem added (h : fmt.Tree live m root) (hadd : fmt.TableAdded live m m' root g d) :
    fmt.Tree live m' root := by
  have hnext := next_added hadd
  refine ⟨?_, ?_⟩
  · intro d' g' hd' hg'
    rw [hnext] at hg'
    split at hg'
    · obtain rfl := Option.some.inj hg'
      exact hadd.ne_root
    · exact h.ne_root d' g' hd' hg'
  · intro d₁ d₂ g' hd₁ hd₂ hg₁ hg₂
    rw [hnext] at hg₁ hg₂
    split at hg₁ <;> split at hg₂
    · rename_i heq₁ heq₂
      rw [heq₁, heq₂]
    · obtain rfl := Option.some.inj hg₁
      exact absurd hg₂ (hadd.fresh d₂ hd₂)
    · obtain rfl := Option.some.inj hg₂
      exact absurd hg₁ (hadd.fresh d₁ hd₁)
    · exact h.inj d₁ d₂ g' hd₁ hd₂ hg₁ hg₂

end Format.Tree

end Radix
