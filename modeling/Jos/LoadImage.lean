import Jos.LoadReturns

/-!
What an environment sees of its program after `load_icode`: the segments where they belong, the
last one where several of them share a page, and nothing else but the page of the stack.
-/

namespace Jos

/-- What is to be seen at each address: nothing, a page, or a byte of it. -/
abbrev View : Type := UInt32 → Option (Option UInt8)

/-- The segment has a byte at `a`. -/
def Proghdr.Holds (h : Proghdr) (a : UInt32) : Prop :=
  h.pVa.toNat ≤ a.toNat ∧ a.toNat < h.pVa.toNat + h.pMemsz.toNat

instance (h : Proghdr) (a : UInt32) : Decidable (h.Holds a) :=
  inferInstanceAs (Decidable (_ ∧ _))

/-- The pages `ks` are new. -/
def View.renew (v : View) (ks : List Nat) : View := fun a =>
  if a.toNat / 4096 ∈ ks then some none else v a

/-- The bytes `w` are written. -/
def View.write (v : View) (w : UInt32 → Option UInt8) : View := fun a =>
  match w a with
  | some b => some (some b)
  | none => v a

def View.load (m : Mem) (binary : UInt32) (v : View) (h : Proghdr) : View :=
  (v.renew h.pages).write (bytesAt h.pVa h.pMemsz.toNat (h.byte m binary))

/-- The program at `binary`, as its environment is to see it. -/
def programView (m : Mem) (binary : UInt32) : View :=
  ((loadable m binary).foldl (View.load m binary) fun _ => none).renew [stackPage]

/-- The page directory `f` shows `v` below `UTOP`. -/
structure ShowsView (s : Machine) (f : Nat) (v : View) : Prop where
  unmapped : ∀ a < utop, v a = none → pteAt s.mem f (vpn a) = none
  mapped : ∀ a < utop, v a ≠ none → pteAt s.mem f (vpn a) ≠ none
  byte : ∀ a < utop, ∀ b, v a = some (some b) → userByte s f a = some b

variable {L : Layout} {e : Fin nenv} {f k n q : Nat} {all fl : List Nat} {s₀ s s₁ s' : Machine}
  {binary : UInt32} {m : Mem} {v : View}

theorem page_ne {a : UInt32} (hk : n = 0 ∨ k + n ≤ 977920)
    (hout : a.toNat / 4096 ∉ List.range' k n) : ∀ i < n, vpn a ≠ vpn (pageVa (k + i)) := by
  intro i hi heq
  rw [vpn_eq_iff, pageVa_toNat (by omega)] at heq
  rw [List.mem_range'_1] at hout
  omega

theorem ShowsView.renew (h : ShowsView s f v) (hgiven : PagesGiven f k n s s')
    (hk : n = 0 ∨ k + n ≤ 977920) :
    ShowsView s' f (v.renew (List.range' k n)) := by
  have hin {a : UInt32} (hpage : a.toNat / 4096 ∈ List.range' k n) :
      pteAt s'.mem f (vpn a) ≠ none := by
    rw [List.mem_range'_1] at hpage
    obtain ⟨p, -, hpte⟩ := hgiven.here (a.toNat / 4096 - k) (by omega)
    rw [vpn_pageVa, show a.toNat / 4096 = k + (a.toNat / 4096 - k) by omega, hpte]
    simp
  have hout {a : UInt32} (ha : a < utop) (hpage : a.toNat / 4096 ∉ List.range' k n) :
      pteAt s'.mem f (vpn a) = pteAt s.mem f (vpn a) :=
    hgiven.other _ (pdxIdx_lt_userPdes ha) (page_ne hk hpage)
  constructor
  · intro a ha hnone
    unfold View.renew at hnone
    split at hnone
    · cases hnone
    · rename_i hpage
      rw [hout ha hpage]
      exact h.unmapped a ha hnone
  · intro a ha hsome
    unfold View.renew at hsome
    split at hsome
    · rename_i hpage
      exact hin hpage
    · rename_i hpage
      rw [hout ha hpage]
      exact h.mapped a ha hsome
  · intro a ha b hb
    unfold View.renew at hb
    split at hb
    · cases hb
    · rename_i hpage
      have hbyte := h.byte a ha b hb
      unfold userByte at hbyte ⊢
      rw [hout ha hpage]
      obtain ⟨w, hw, hb'⟩ := Option.map_eq_some_iff.mp hbyte
      have hdata := hgiven.data _ (pdxIdx_lt_userPdes ha) (page_ne hk hpage) w hw
      rw [hw, Option.map_some, ← hb', Mem.byte, Mem.byte]
      have hframe : (frameOf w * 4096 + a.toNat % 4096) / 4096 = frameOf w := by omega
      rw [hframe, hdata]

theorem ShowsView.write {w : UInt32 → Option UInt8} (h : ShowsView s f v)
    (hstored : Stored f w s s') : ShowsView s' f (v.write w) := by
  have hmapped {a : UInt32} (ha : a < utop) : pteAt s'.mem f (vpn a) = pteAt s.mem f (vpn a) :=
    hstored.mapped _ (pdxIdx_lt_userPdes ha)
  constructor
  · intro a ha hnone
    unfold View.write at hnone
    split at hnone
    · cases hnone
    · rw [hmapped ha]
      exact h.unmapped a ha hnone
  · intro a ha hsome
    unfold View.write at hsome
    split at hsome
    · rename_i b hb
      intro hnone
      have hbyte := hstored.here a ha b hb
      rw [userByte, hnone] at hbyte
      cases hbyte
    · rw [hmapped ha]
      exact h.mapped a ha hsome
  · intro a ha b hb
    unfold View.write at hb
    split at hb
    · rename_i c hc
      obtain rfl := Option.some.inj (Option.some.inj hb)
      exact hstored.here a ha c hc
    · rename_i hnone
      rw [hstored.other a ha hnone]
      exact h.byte a ha b hb

/-- The bytes of the file all lie in the kernel image. -/
def Proghdr.InImage (h : Proghdr) (image : Image) (binary : UInt32) : Prop :=
  binary.toNat + h.pOffset.toNat + h.pFilesz.toNat ≤ image.kend.toNat

theorem Proghdr.BelowUtop.pages_le {h : Proghdr} (hbelow : h.BelowUtop) :
    (h.pMemsz.toNat + 4095) / 4096 = 0 ∨
      h.pVa.toNat / 4096 + (h.pMemsz.toNat + 4095) / 4096 ≤ 977920 := by
  by_cases hzero : h.pMemsz = 0
  · left
    rw [hzero]
    rfl
  · exact .inr (hbelow hzero)

/-- The segment gets fresh pages, and then its bytes are stored. -/
theorem SegmentLoaded.stored {h : Proghdr} (hseg : SegmentLoaded L f m binary h s s')
    (himage : h.InImage L.image binary) :
    ∃ s₁, PagesGiven f (h.pVa.toNat / 4096) ((h.pMemsz.toNat + 4095) / 4096) s s₁ ∧
      Stored f (bytesAt h.pVa h.pMemsz.toNat (h.byte m binary)) s₁ s' := by
  obtain ⟨s₁, c, hgiven, hstored, hc⟩ := hseg.steps
  have hbytes : bytesAt h.pVa h.pMemsz.toNat c =
      bytesAt h.pVa h.pMemsz.toNat (h.byte m binary) := by
    funext a
    unfold bytesAt
    split
    · rename_i hin
      rw [hc _ (by omega) fun hfile => by
        unfold Proghdr.InImage at himage
        omega]
    · rfl
  rw [hbytes] at hstored
  exact ⟨s₁, hgiven, hstored⟩

theorem ShowsView.segment {h : Proghdr} (hv : ShowsView s f v) (hbelow : h.BelowUtop)
    (himage : h.InImage L.image binary) (hseg : SegmentLoaded L f m binary h s s') :
    ShowsView s' f (v.load m binary h) := by
  obtain ⟨s₁, hgiven, hstored⟩ := hseg.stored himage
  have hrenewed : ShowsView s₁ f (v.renew h.pages) := hv.renew hgiven hbelow.pages_le
  exact hrenewed.write hstored

theorem ShowsView.segments {hs : List Proghdr} (hv : ShowsView s f v)
    (hbelow : ∀ h ∈ hs, h.BelowUtop) (himage : ∀ h ∈ hs, h.InImage L.image binary)
    (hsegs : SegmentsLoaded L f m binary hs s s') :
    ShowsView s' f (hs.foldl (View.load m binary) v) := by
  induction hsegs generalizing v with
  | nil s => exact hv
  | cons hseg _ ih =>
    exact ih (hv.segment (hbelow _ List.mem_cons_self) (himage _ List.mem_cons_self) hseg)
      (fun h hmem => hbelow h (List.mem_cons_of_mem _ hmem))
      (fun h hmem => himage h (List.mem_cons_of_mem _ hmem))

/-- Nothing is to be seen of a new environment. -/
theorem ShowsView.nothing (hf : dirFrame s.envs e = some f)
    (hnone : ∀ x : Slot, x.env = e → x ≠ .dir e → own s.mem s.envs x = none) :
    ShowsView s f fun _ => none where
  unmapped a ha _ := pteAt_of_unmapped hf ha (hnone (.pte e _ _) rfl (by simp))
  mapped _ _ hsome := absurd rfl hsome
  byte _ _ _ hb := by cases hb

/-- What `load_icode` leaves to be seen. -/
theorem IcodeLoaded.shows (h : IcodeLoaded L e f binary all s s') (hf : dirFrame s.envs e = some f)
    (hnone : ∀ x : Slot, x.env = e → x ≠ .dir e → own s.mem s.envs x = none)
    (hbelow : ∀ hdr ∈ loadable s.mem binary, hdr.BelowUtop)
    (himage : ∀ hdr ∈ loadable s.mem binary, hdr.InImage L.image binary) :
    ShowsView s' f (programView s.mem binary) := by
  obtain ⟨s₁, s₂, fl', hsegs, hstack, -, rfl⟩ := h.steps
  have hstart : ShowsView (s.loadPgdir (page2pa f)) f fun _ => none := ShowsView.nothing hf hnone
  have hloaded := hstart.segments hbelow himage hsegs
  have hclosed : ShowsView (s₁.withEntry e (eEntry s.mem binary)) f
      ((loadable s.mem binary).foldl (View.load s.mem binary) fun _ => none) :=
    ⟨hloaded.unmapped, hloaded.mapped, hloaded.byte⟩
  have hpage := hclosed.renew hstack (.inr (by decide))
  exact ⟨hpage.unmapped, hpage.mapped, hpage.byte⟩

/-- Every byte of a segment lies in one of the pages mapped for it. -/
theorem Proghdr.Fits.page_mem {h : Proghdr} {image : Image} (hfits : h.Fits image binary)
    {a : UInt32} (ha : h.Holds a) : a.toNat / 4096 ∈ h.pages := by
  have hstack : (ustacktop - pgsize).toNat = 4005548032 := rfl
  have hbelow := hfits.below
  have hcovered := hfits.covered
  obtain ⟨hlo, hhi⟩ := ha
  rw [roundUp_len (by omega)] at hcovered
  rw [Proghdr.pages, List.mem_range'_1]
  omega

theorem View.load_other {h : Proghdr} {image : Image} (hfits : h.Fits image binary) (v : View)
    {a : UInt32} (hpage : a.toNat / 4096 ∉ h.pages) : v.load m binary h a = v a := by
  have hout : bytesAt h.pVa h.pMemsz.toNat (h.byte m binary) a = none :=
    if_neg fun ha => hpage (hfits.page_mem ha)
  rw [View.load, View.write, hout]
  exact if_neg hpage

theorem View.load_here {h : Proghdr} (v : View) {a : UInt32} (ha : h.Holds a) :
    v.load m binary h a = some (some (h.byte m binary (a.toNat - h.pVa.toNat))) := by
  have hin : bytesAt h.pVa h.pMemsz.toNat (h.byte m binary) a =
      some (h.byte m binary (a.toNat - h.pVa.toNat)) := if_pos ha
  rw [View.load, View.write, hin]

theorem foldl_load_other {image : Image} (hs : List Proghdr) (v : View) {a : UInt32}
    (hfits : ∀ h ∈ hs, h.Fits image binary) (hpage : ∀ h ∈ hs, a.toNat / 4096 ∉ h.pages) :
    hs.foldl (View.load m binary) v a = v a := by
  induction hs generalizing v with
  | nil => rfl
  | cons h hs ih =>
    rw [List.foldl_cons, ih _ (fun h' hmem => hfits h' (List.mem_cons_of_mem h hmem))
      fun h' hmem => hpage h' (List.mem_cons_of_mem h hmem)]
    exact View.load_other (hfits h List.mem_cons_self) v (hpage h List.mem_cons_self)

/-- No two of the segments touch the same page. -/
def Apart (hs : List Proghdr) : Prop := hs.Pairwise fun h h' => ∀ k ∈ h.pages, k ∉ h'.pages

theorem foldl_load_here {image : Image} (hs : List Proghdr) (v : View) {h : Proghdr} {a : UInt32}
    (hfits : ∀ h ∈ hs, h.Fits image binary) (hapart : Apart hs) (hmem : h ∈ hs) (ha : h.Holds a) :
    hs.foldl (View.load m binary) v a = some (some (h.byte m binary (a.toNat - h.pVa.toNat))) := by
  induction hs generalizing v with
  | nil => cases hmem
  | cons h' hs ih =>
    obtain ⟨hfirst, hrest⟩ := List.pairwise_cons.mp hapart
    have hfits' : ∀ h ∈ hs, h.Fits image binary := fun h hmem =>
      hfits h (List.mem_cons_of_mem h' hmem)
    rw [List.foldl_cons]
    rcases List.mem_cons.mp hmem with rfl | hmem
    · rw [foldl_load_other hs _ hfits' fun h' hmem' =>
        hfirst h' hmem' _ ((hfits h List.mem_cons_self).page_mem ha)]
      exact View.load_here v ha
    · exact ih _ hfits' hrest hmem

end Jos
