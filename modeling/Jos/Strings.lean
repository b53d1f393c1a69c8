import Jos.DirectiveOps
import Jos.Memmove

/-!
Copying and comparing strings, from `lib/string.c`. Addresses wrap around and the buffers may
overlap, so that a copy can run away from the NUL that should end it.
-/

namespace Jos.Strings

abbrev Bytes : Type := UInt32 → UInt8

/-- `for (n = 0; *s != '\0'; s++) n++;`, from the count `n` on. -/
def strlen (mem : Bytes) : Nat → UInt32 → Int32 → Except Fault Int32
  | 0, _, _ => .error .fuel
  | fuel + 1, s, n => if mem s ≠ 0 then strlen mem fuel (s + 1) (n + 1) else .ok n

/-- `while ((*dst++ = *src++) != '\0') ;` -/
def strcpy : Nat → UInt32 → UInt32 → Bytes → Except Fault Bytes
  | 0, _, _, _ => .error .fuel
  | fuel + 1, dst, src, mem =>
    if mem src ≠ 0 then strcpy fuel (dst + 1) (src + 1) (Function.update mem dst (mem src))
    else .ok (Function.update mem dst (mem src))

def strcat (fuel : Nat) (dst src : UInt32) (mem : Bytes) : Except Fault Bytes := do
  let len ← strlen mem fuel dst 0
  strcpy fuel (dst + len.toUInt32) src mem

/-- `(int) ((unsigned char) *p - (unsigned char) *q)`. -/
def diff (a b : UInt8) : Int32 := ucharToInt a - ucharToInt b

/-- `strcmp`, where `atP` and `atQ` read the two strings. -/
def strcmpBy {α : Type} [Add α] [OfNat α 1] (atP atQ : α → Except Fault UInt8) :
    Nat → α → α → Except Fault Int32
  | 0, _, _ => .error .fuel
  | fuel + 1, p, q => do
    let c ← atP p
    let d ← atQ q
    if c ≠ 0 ∧ c = d then strcmpBy atP atQ fuel (p + 1) (q + 1)
    else return diff c d

def strcmp (mem : Bytes) (fuel : Nat) (p q : UInt32) : Except Fault Int32 :=
  strcmpBy (fun p => .ok (mem p)) (fun q => .ok (mem q)) fuel p q

def strncmp (mem : Bytes) : Nat → UInt32 → UInt32 → Int32
  | 0, _, _ => 0
  | n + 1, p, q =>
    if mem p ≠ 0 ∧ mem p = mem q then strncmp mem n (p + 1) (q + 1)
    else diff (mem p) (mem q)

def memcmp (mem : Bytes) : Nat → UInt32 → UInt32 → Int32
  | 0, _, _ => 0
  | n + 1, s1, s2 =>
    if mem s1 ≠ mem s2 then diff (mem s1) (mem s2) else memcmp mem n (s1 + 1) (s2 + 1)

/-- At `p` the bytes of the string stand, and a NUL behind them. -/
def StringAt (mem : Bytes) : UInt32 → List UInt8 → Prop
  | p, [] => mem p = 0
  | p, c :: cs => mem p = c ∧ c ≠ 0 ∧ StringAt mem (p + 1) cs

def BytesAt (mem : Bytes) : UInt32 → List UInt8 → Prop
  | _, [] => True
  | p, c :: cs => mem p = c ∧ BytesAt mem (p + 1) cs

variable {mem mem' : Bytes} {p q dst src : UInt32} {bs cs ds : List UInt8} {a b c : UInt8}
  {d k n fuel : Nat} {r : Int32}

theorem exists_fuel (h : n < fuel) : ∃ m, fuel = m + 1 :=
  Nat.exists_eq_add_one_of_ne_zero (Nat.ne_zero_of_lt h)

theorem byteAfter_succ (p : UInt32) (k : Nat) : byteAfter (p + 1) k = byteAfter p (k + 1) := by
  rw [Nat.add_comm k 1, byteAfter, byteAfter, UInt32.ofNat_add, ← UInt32.add_assoc]
  rfl

theorem byteAfter_period (p : UInt32) (k : Nat) : byteAfter p (k + 2 ^ 32) = byteAfter p k := by
  apply UInt32.toNat_inj.mp
  rw [byteAfter, byteAfter, UInt32.toNat_add, UInt32.toNat_add, UInt32.toNat_ofNat',
    UInt32.toNat_ofNat']
  omega

namespace StringAt

theorem byte_ne (h : StringAt mem p bs) (hk : k < bs.length) : mem (byteAfter p k) ≠ 0 := by
  induction bs generalizing p k with
  | nil => exact absurd hk (Nat.not_lt_zero k)
  | cons b bs ih =>
    obtain ⟨hb, hne, hrest⟩ := h
    cases k with
    | zero =>
      rw [byteAfter_zero, hb]
      exact hne
    | succ k =>
      rw [← byteAfter_succ]
      exact ih hrest (Nat.lt_of_succ_lt_succ hk)

theorem nul (h : StringAt mem p bs) : mem (byteAfter p bs.length) = 0 := by
  induction bs generalizing p with
  | nil =>
    rw [List.length_nil, byteAfter_zero]
    exact h
  | cons b bs ih =>
    rw [List.length_cons, ← byteAfter_succ]
    exact ih h.2.2

/-- A string is shorter than memory. -/
theorem length_lt (h : StringAt mem p bs) : bs.length < 2 ^ 32 := by
  by_contra hlong
  have hend := h.nul
  have hperiod := byteAfter_period p (bs.length - 2 ^ 32)
  rw [Nat.sub_add_cancel (Nat.le_of_not_lt hlong)] at hperiod
  rw [hperiod] at hend
  exact h.byte_ne (by omega) hend

theorem congr (h : StringAt mem p bs)
    (hsame : ∀ k ≤ bs.length, mem' (byteAfter p k) = mem (byteAfter p k)) :
    StringAt mem' p bs := by
  have hfirst := hsame 0 (Nat.zero_le _)
  rw [byteAfter_zero] at hfirst
  induction bs generalizing p with
  | nil => exact hfirst.trans h
  | cons b bs ih =>
    obtain ⟨hb, hne, hrest⟩ := h
    have hnext (k : Nat) (hk : k ≤ bs.length) :
        mem' (byteAfter (p + 1) k) = mem (byteAfter (p + 1) k) := by
      rw [byteAfter_succ]
      exact hsame (k + 1) (Nat.succ_le_succ hk)
    refine ⟨hfirst.trans hb, hne, ih hrest hnext ?_⟩
    have hzero := hnext 0 (Nat.zero_le _)
    rwa [byteAfter_zero] at hzero

theorem append (h : StringAt mem p bs)
    (hsame : ∀ k < bs.length, mem' (byteAfter p k) = mem (byteAfter p k))
    (hbehind : StringAt mem' (byteAfter p bs.length) cs) : StringAt mem' p (bs ++ cs) := by
  induction bs generalizing p with
  | nil =>
    rw [List.length_nil, byteAfter_zero] at hbehind
    exact hbehind
  | cons b bs ih =>
    obtain ⟨hb, hne, hrest⟩ := h
    have hfirst := hsame 0 (Nat.succ_pos _)
    rw [byteAfter_zero] at hfirst
    refine ⟨hfirst.trans hb, hne, ih hrest ?_ ?_⟩
    · intro k hk
      rw [byteAfter_succ]
      exact hsame (k + 1) (Nat.succ_lt_succ hk)
    · rw [byteAfter_succ]
      exact hbehind

theorem strlen (h : StringAt mem p bs) (hfuel : bs.length < fuel) (r : Int32) :
    Strings.strlen mem fuel p r = .ok (r + Int32.ofNat bs.length) := by
  induction fuel generalizing p bs r with
  | zero => exact absurd hfuel (Nat.not_lt_zero _)
  | succ fuel ih =>
    unfold Strings.strlen
    cases bs with
    | nil =>
      have hnul : mem p = 0 := h
      simp [hnul]
    | cons b bs =>
      obtain ⟨hb, hne, hrest⟩ := h
      rw [if_pos (by rwa [hb]), ih hrest (Nat.lt_of_succ_lt_succ hfuel), List.length_cons,
        Int32.ofNat_add, Int32.add_assoc, Int32.add_comm 1]
      rfl

theorem strlen_fuel (h : StringAt mem p bs) (hfuel : fuel ≤ bs.length) (r : Int32) :
    Strings.strlen mem fuel p r = .error .fuel := by
  induction fuel generalizing p bs r with
  | zero => rfl
  | succ fuel ih =>
    obtain ⟨b, bs, rfl⟩ := List.exists_cons_of_length_pos (Nat.zero_lt_of_lt hfuel)
    obtain ⟨hb, hne, hrest⟩ := h
    rw [Strings.strlen, if_pos (by rwa [hb])]
    exact ih hrest (Nat.le_of_succ_le_succ hfuel) _

end StringAt

/-- The NUL of the string at `src` is not overwritten before it is copied: `dst` is none of the
bytes behind the first, and not the NUL of a string that is not empty. -/
def KeepsNul (dst src : UInt32) (len : Nat) : Prop :=
  ∀ k, 0 < k → k ≤ len → dst ≠ byteAfter src k

/-- No NUL stands in the `d` bytes from `p` on. -/
def NoNul (mem : Bytes) (p : UInt32) (d : Nat) : Prop := ∀ i < d, mem (byteAfter p i) ≠ 0

/-- Copying a byte `d` places further keeps the NULs away: the last of the next `d` bytes is the
copy of the first one. -/
theorem NoNul.step (h : NoNul mem src d) (hd : 0 < d) (hlt : d < 2 ^ 32) :
    NoNul (Function.update mem (byteAfter src d) (mem src)) (src + 1) d := by
  intro i hi
  rw [byteAfter_succ]
  by_cases hlast : i + 1 = d
  · rw [hlast, Function.update_self]
    have hfirst := h 0 hd
    rwa [byteAfter_zero] at hfirst
  · have hne : byteAfter src (i + 1) ≠ byteAfter src d := fun heq =>
      hlast (byteAfter_inj (by omega) hlt heq)
    rw [Function.update_of_ne hne]
    exact h (i + 1) (by omega)

theorem NoNul.strcpy (h : NoNul mem src d) (hd : 0 < d) (hlt : d < 2 ^ 32) (fuel : Nat) :
    Strings.strcpy fuel (byteAfter src d) src mem = .error .fuel := by
  induction fuel generalizing mem src with
  | zero => rfl
  | succ fuel ih =>
    have hfirst := h 0 hd
    rw [byteAfter_zero] at hfirst
    have hnext : byteAfter src d + 1 = byteAfter (src + 1) d := by
      rw [byteAfter_succ, byteAfter_add]
      rfl
    unfold Strings.strcpy
    rw [if_pos hfirst, hnext]
    exact ih (h.step hd hlt)

theorem StringAt.strcpy_copies (h : StringAt mem src bs) (hkeeps : KeepsNul dst src bs.length) :
    ∃ mem', (∀ fuel, bs.length < fuel → strcpy fuel dst src mem = .ok mem') ∧
      StringAt mem' dst bs ∧ ∀ x, (∀ k ≤ bs.length, x ≠ byteAfter dst k) → mem' x = mem x := by
  have hlen := h.length_lt
  induction bs generalizing dst src mem with
  | nil =>
    have hnul : mem src = 0 := h
    refine ⟨Function.update mem dst (mem src), ?_, ?_, ?_⟩
    · intro fuel hfuel
      obtain ⟨fuel, rfl⟩ := exists_fuel hfuel
      simp [strcpy, hnul]
    · exact (Function.update_self ..).trans hnul
    · intro x hx
      have hne := hx 0 (Nat.le_refl 0)
      rw [byteAfter_zero] at hne
      exact Function.update_of_ne hne ..
  | cons b bs ih =>
    rw [List.length_cons] at hlen
    obtain ⟨hb, hne, hrest⟩ := h
    have hmoved : StringAt (Function.update mem dst (mem src)) (src + 1) bs := by
      refine hrest.congr fun k hk => Function.update_of_ne ?_ ..
      rw [byteAfter_succ]
      exact (hkeeps (k + 1) (Nat.succ_pos k) (Nat.succ_le_succ hk)).symm
    have hkeeps' : KeepsNul (dst + 1) (src + 1) bs.length := by
      intro k hpos hk heq
      refine hkeeps k hpos (Nat.le_succ_of_le hk) ?_
      rw [byteAfter_succ, byteAfter_add] at heq
      exact UInt32.add_left_inj _ |>.mp heq
    obtain ⟨mem', hrun, hcopy, hframe⟩ := ih hmoved hkeeps' (Nat.lt_of_succ_lt hlen)
    have hfirst : mem' dst = b := by
      have hout : ∀ k ≤ bs.length, dst ≠ byteAfter (dst + 1) k := by
        intro k hk heq
        rw [byteAfter_succ] at heq
        have hsame := byteAfter_inj (p := dst) (i := 0) (j := k + 1) (by omega) (by omega)
          ((byteAfter_zero dst).trans heq)
        omega
      rw [hframe dst hout, Function.update_self, hb]
    refine ⟨mem', ?_, ⟨hfirst, hne, hcopy⟩, ?_⟩
    · intro fuel hfuel
      obtain ⟨fuel, rfl⟩ := exists_fuel hfuel
      rw [strcpy, if_pos (by rwa [hb])]
      exact hrun fuel (Nat.lt_of_succ_lt_succ hfuel)
    · intro x hx
      have hout : ∀ k ≤ bs.length, x ≠ byteAfter (dst + 1) k := by
        intro k hk
        rw [byteAfter_succ]
        exact hx (k + 1) (Nat.succ_le_succ hk)
      have hne := hx 0 (Nat.zero_le _)
      rw [byteAfter_zero] at hne
      rw [hframe x hout, Function.update_of_ne hne]

theorem StringAt.strcpy_endless (h : StringAt mem src bs) (hkeeps : ¬ KeepsNul dst src bs.length)
    (fuel : Nat) : strcpy fuel dst src mem = .error .fuel := by
  simp only [KeepsNul, ne_eq, not_forall, not_not, exists_prop] at hkeeps
  obtain ⟨d, hpos, hd, rfl⟩ := hkeeps
  have hlen := h.length_lt
  exact NoNul.strcpy (fun i hi => h.byte_ne (by omega)) hpos (by omega) fuel

/-- `strcpy` ends exactly when the copy begins at none of the bytes behind the first, nor at the NUL
of a string that is not empty; then the string stands at `dst` and nothing else has changed. -/
theorem strcpy_ends_iff (h : StringAt mem src bs) :
    ((∃ fuel mem', strcpy fuel dst src mem = .ok mem') ↔ KeepsNul dst src bs.length) ∧
      (KeepsNul dst src bs.length → ∃ mem',
        (∀ fuel, bs.length < fuel → strcpy fuel dst src mem = .ok mem') ∧ StringAt mem' dst bs ∧
          ∀ x, (∀ k ≤ bs.length, x ≠ byteAfter dst k) → mem' x = mem x) := by
  refine ⟨⟨?_, ?_⟩, h.strcpy_copies⟩
  · rintro ⟨fuel, mem', hrun⟩
    by_contra hkeeps
    rw [h.strcpy_endless hkeeps fuel] at hrun
    cases hrun
  · intro hkeeps
    obtain ⟨mem', hrun, -⟩ := h.strcpy_copies hkeeps
    exact ⟨bs.length + 1, mem', hrun _ (Nat.lt_succ_self _)⟩

/-- A text at address 16 and room behind it. -/
def sampleBytes : Bytes := fun x =>
  if x = 16 then 'j'.toUInt8 else if x = 17 then 'o'.toUInt8 else if x = 18 then 's'.toUInt8 else 0

theorem sampleBytes_text : StringAt sampleBytes 16 ['j'.toUInt8, 'o'.toUInt8, 's'.toUInt8] := by
  simp only [StringAt]
  decide

theorem strcpy_ends_iff_text :
    (∃ fuel mem', strcpy fuel 32 16 sampleBytes = .ok mem') ∧
      ¬ ∃ fuel mem', strcpy fuel 18 16 sampleBytes = .ok mem' := by
  constructor
  · refine (strcpy_ends_iff sampleBytes_text).1.mpr ?_
    intro k hpos hk
    have hk : k ≤ 3 := hk
    interval_cases k <;> decide
  · rw [(strcpy_ends_iff sampleBytes_text).1]
    exact fun hkeeps => hkeeps 2 (by decide) (by decide) rfl

theorem StringAt.strcat_eq (h : StringAt mem dst ds) (hfuel : ds.length < fuel) :
    strcat fuel dst src mem = strcpy fuel (byteAfter dst ds.length) src mem := by
  have hzero : (0 : Int32) + Int32.ofNat ds.length = Int32.ofNat ds.length := Int32.zero_add _
  unfold strcat
  rw [h.strlen hfuel, hzero]
  rfl

theorem StringAt.strcat_appends (hd : StringAt mem dst ds) (hs : StringAt mem src bs)
    (hlen : ds.length + bs.length < 2 ^ 31)
    (hkeeps : KeepsNul (byteAfter dst ds.length) src bs.length) : ∃ mem',
      (∀ fuel, ds.length + bs.length < fuel → strcat fuel dst src mem = .ok mem') ∧
        StringAt mem' dst (ds ++ bs) := by
  obtain ⟨mem', hrun, hcopy, hframe⟩ := hs.strcpy_copies hkeeps
  refine ⟨mem', fun fuel hfuel => (hd.strcat_eq (by omega)).trans (hrun fuel (by omega)), ?_⟩
  refine hd.append (fun k hk => hframe _ fun j hj heq => ?_) hcopy
  have hsum : byteAfter (byteAfter dst ds.length) j = byteAfter dst (ds.length + j) :=
    (byteAfter_add dst ds.length j).symm
  have hsame := byteAfter_inj (by omega) (by omega) (heq.trans hsum)
  omega

/-- `strcat` ends exactly when the string at `src` is empty, or the string at `dst` ends at none of
its bytes and not at its NUL; then it has appended the one to the other. So no string but the
empty one can be appended to itself. -/
theorem strcat_ends_iff (hd : StringAt mem dst ds) (hs : StringAt mem src bs)
    (hlen : ds.length + bs.length < 2 ^ 31) :
    ((∃ fuel mem', strcat fuel dst src mem = .ok mem') ↔
      KeepsNul (byteAfter dst ds.length) src bs.length) ∧
      (KeepsNul (byteAfter dst ds.length) src bs.length → ∃ mem',
        (∀ fuel, ds.length + bs.length < fuel → strcat fuel dst src mem = .ok mem') ∧
          StringAt mem' dst (ds ++ bs)) := by
  refine ⟨⟨?_, ?_⟩, hd.strcat_appends hs hlen⟩
  · rintro ⟨fuel, mem', hrun⟩
    by_contra hkeeps
    by_cases hfuel : ds.length < fuel
    · rw [hd.strcat_eq hfuel, hs.strcpy_endless hkeeps fuel] at hrun
      cases hrun
    · rw [strcat, hd.strlen_fuel (Nat.le_of_not_lt hfuel)] at hrun
      cases hrun
  · intro hkeeps
    obtain ⟨mem', hrun, -⟩ := hd.strcat_appends hs hlen hkeeps
    exact ⟨_, mem', hrun _ (Nat.lt_succ_self _)⟩

theorem strcat_ends_iff_text :
    (∃ fuel mem', strcat fuel 32 16 sampleBytes = .ok mem') ∧
      ¬ ∃ fuel mem', strcat fuel 16 16 sampleBytes = .ok mem' := by
  have hempty : StringAt sampleBytes 32 [] := by
    simp only [StringAt]
    decide
  constructor
  · refine (strcat_ends_iff hempty sampleBytes_text (by decide)).1.mpr ?_
    intro k hpos hk
    have hk : k ≤ 3 := hk
    interval_cases k <;> decide
  · rw [(strcat_ends_iff sampleBytes_text sampleBytes_text (by decide)).1]
    exact fun hkeeps => hkeeps 3 (by decide) (by decide) rfl

theorem diff_toInt (a b : UInt8) : (diff a b).toInt = a.toNat - b.toNat := by
  have ha := a.toNat_lt
  have hb := b.toNat_lt
  rw [diff, Int32.toInt_sub, toInt_ucharToInt, toInt_ucharToInt]
  exact Int.bmod_eq_of_le (by omega) (by omega)

/-- The sign of `r` tells which of the byte strings comes first. -/
structure Orders (r : Int32) (bs cs : List UInt8) : Prop where
  lt : r.toInt < 0 ↔ bs < cs
  eq : r.toInt = 0 ↔ bs = cs

namespace Orders

theorem refl (bs : List UInt8) : Orders 0 bs bs where
  lt := iff_of_false (by decide) (List.lt_irrefl bs)
  eq := iff_of_true rfl rfl

theorem cons (h : Orders r bs cs) (b : UInt8) : Orders r (b :: bs) (b :: cs) where
  lt := h.lt.trans (by simp)
  eq := h.eq.trans (by simp)

/-- The first byte that differs decides. -/
theorem differ (hne : a ≠ b) (bs cs : List UInt8) : Orders (diff a b) (a :: bs) (b :: cs) where
  lt := by
    rw [diff_toInt, List.cons_lt_cons_iff, UInt8.lt_iff_toNat_lt]
    simp only [hne, false_and, or_false]
    omega
  eq := by
    rw [diff_toInt, List.cons.injEq]
    refine iff_of_false (fun heq => hne (UInt8.toNat_inj.mp (by omega))) fun heq => hne heq.1

/-- The NUL stands before every other byte. -/
theorem shorter (hc : c ≠ 0) (cs : List UInt8) : Orders (diff 0 c) [] (c :: cs) where
  lt := by
    have hpos : c.toNat ≠ 0 := fun heq => hc (UInt8.toNat_inj.mp heq)
    have hzero : (0 : UInt8).toNat = 0 := rfl
    rw [diff_toInt]
    exact iff_of_true (by omega) (List.nil_lt_cons c cs)
  eq := by
    have hpos : c.toNat ≠ 0 := fun heq => hc (UInt8.toNat_inj.mp heq)
    have hzero : (0 : UInt8).toNat = 0 := rfl
    rw [diff_toInt]
    exact iff_of_false (by omega) (by simp)

theorem longer (hc : c ≠ 0) (cs : List UInt8) : Orders (diff c 0) (c :: cs) [] where
  lt := by
    have hzero : (0 : UInt8).toNat = 0 := rfl
    rw [diff_toInt]
    exact iff_of_false (by omega) (by simp)
  eq := by
    have hpos : c.toNat ≠ 0 := fun heq => hc (UInt8.toNat_inj.mp heq)
    have hzero : (0 : UInt8).toNat = 0 := rfl
    rw [diff_toInt]
    exact iff_of_false (by omega) (by simp)

end Orders

/-- How two strings go on: both with the same byte, or the difference of the next bytes decides. -/
theorem StringAt.next (hp : StringAt mem p bs) (hq : StringAt mem q cs) :
    (∃ c bs' cs', bs = c :: bs' ∧ cs = c :: cs' ∧ (mem p ≠ 0 ∧ mem p = mem q) ∧
      StringAt mem (p + 1) bs' ∧ StringAt mem (q + 1) cs') ∨
      ¬ (mem p ≠ 0 ∧ mem p = mem q) ∧ (∀ n, Orders (diff (mem p) (mem q)) (bs.take (n + 1))
        (cs.take (n + 1))) ∧ Orders (diff (mem p) (mem q)) bs cs := by
  cases bs with
  | nil =>
    have hp' : mem p = 0 := hp
    right
    cases cs with
    | nil =>
      have hq' : mem q = 0 := hq
      rw [hp', hq']
      exact ⟨by simp, fun n => Orders.refl _, Orders.refl _⟩
    | cons c cs =>
      obtain ⟨hc, hne, -⟩ := hq
      rw [hp', hc]
      exact ⟨by simp, fun n => Orders.shorter hne _, Orders.shorter hne cs⟩
  | cons b bs =>
    obtain ⟨hb, hbne, hp'⟩ := hp
    cases cs with
    | nil =>
      have hq' : mem q = 0 := hq
      rw [hb, hq']
      exact .inr ⟨fun h => hbne h.2, fun n => Orders.longer hbne _, Orders.longer hbne bs⟩
    | cons c cs =>
      obtain ⟨hc, hcne, hq'⟩ := hq
      rw [hb, hc]
      by_cases hsame : b = c
      · subst hsame
        exact .inl ⟨b, bs, cs, rfl, rfl, ⟨hbne, rfl⟩, hp', hq'⟩
      · exact .inr ⟨fun h => hsame h.2, fun n => Orders.differ hsame _ _, Orders.differ hsame bs cs⟩

theorem strcmp_succ (mem : Bytes) (fuel : Nat) (p q : UInt32) :
    strcmp mem (fuel + 1) p q =
      if mem p ≠ 0 ∧ mem p = mem q then strcmp mem fuel (p + 1) (q + 1)
      else .ok (diff (mem p) (mem q)) := rfl

theorem strcmp_stop (hstop : ¬ (mem p ≠ 0 ∧ mem p = mem q)) (hfuel : n < fuel) :
    strcmp mem fuel p q = .ok (diff (mem p) (mem q)) := by
  obtain ⟨fuel, rfl⟩ := exists_fuel hfuel
  rw [strcmp_succ, if_neg hstop]

theorem StringAt.strcmp (hp : StringAt mem p bs) (hq : StringAt mem q cs) :
    ∃ r, (∀ fuel, bs.length < fuel → Strings.strcmp mem fuel p q = .ok r) ∧ Orders r bs cs := by
  induction bs generalizing p q cs with
  | nil =>
    rcases hp.next hq with ⟨c, bs', cs', hcons, -⟩ | ⟨hstop, -, horders⟩
    · cases hcons
    · exact ⟨_, fun fuel hfuel => strcmp_stop hstop hfuel, horders⟩
  | cons b bs ih =>
    rcases hp.next hq with ⟨c, bs', cs', hcons, rfl, hsame, hp', hq'⟩ | ⟨hstop, -, horders⟩
    · obtain ⟨rfl, rfl⟩ := List.cons.inj hcons
      obtain ⟨r, hrun, horders⟩ := ih hp' hq'
      refine ⟨r, fun fuel hfuel => ?_, horders.cons _⟩
      obtain ⟨fuel, rfl⟩ := exists_fuel hfuel
      rw [strcmp_succ, if_pos hsame]
      exact hrun fuel (Nat.lt_of_succ_lt_succ hfuel)
    · exact ⟨_, fun fuel hfuel => strcmp_stop hstop hfuel, horders⟩

theorem StringAt.strncmp (hp : StringAt mem p bs) (hq : StringAt mem q cs) (n : Nat) :
    Orders (Strings.strncmp mem n p q) (bs.take n) (cs.take n) := by
  induction n generalizing p q bs cs with
  | zero => exact Orders.refl []
  | succ n ih =>
    unfold Strings.strncmp
    rcases hp.next hq with ⟨c, bs', cs', rfl, rfl, hsame, hp', hq'⟩ | ⟨hstop, horders, -⟩
    · rw [if_pos hsame]
      exact (ih hp' hq').cons c
    · rw [if_neg hstop]
      exact horders n

theorem BytesAt.memcmp (hp : BytesAt mem p bs) (hq : BytesAt mem q cs)
    (hlen : cs.length = bs.length) : Orders (Strings.memcmp mem bs.length p q) bs cs := by
  induction bs generalizing p q cs with
  | nil =>
    obtain rfl := List.length_eq_zero_iff.mp hlen
    exact Orders.refl []
  | cons b bs ih =>
    obtain ⟨c, cs, rfl⟩ := List.exists_cons_of_length_eq_add_one hlen
    obtain ⟨hb, hp'⟩ := hp
    obtain ⟨hc, hq'⟩ := hq
    rw [List.length_cons, Strings.memcmp, hb, hc]
    by_cases hsame : b = c
    · subst hsame
      rw [if_neg (not_not.mpr rfl)]
      exact (ih hp' hq' (Nat.succ.inj hlen)).cons b
    · rw [if_pos hsame]
      exact Orders.differ hsame bs cs

/-- The three functions tell the lexicographic order: of the strings, of their first `n` bytes, and
of the bytes of two buffers. -/
theorem comparisons_order (hp : StringAt mem p bs) (hq : StringAt mem q cs) :
    (∃ r, (∀ fuel, bs.length < fuel → strcmp mem fuel p q = .ok r) ∧ Orders r bs cs) ∧
      (∀ n, Orders (strncmp mem n p q) (bs.take n) (cs.take n)) ∧
        ∀ u v xs ys, BytesAt mem u xs → BytesAt mem v ys → ys.length = xs.length →
          Orders (memcmp mem xs.length u v) xs ys :=
  ⟨hp.strcmp hq, hp.strncmp hq, fun _ _ _ _ hu hv hlen => hu.memcmp hv hlen⟩

theorem comparisons_order_text :
    ∃ r, (∀ fuel, 3 < fuel → strcmp sampleBytes fuel 16 17 = .ok r) ∧ r.toInt < 0 := by
  have hshort : StringAt sampleBytes 17 ['o'.toUInt8, 's'.toUInt8] := sampleBytes_text.2.2
  obtain ⟨⟨r, hrun, horders⟩, -⟩ := comparisons_order sampleBytes_text hshort
  exact ⟨r, hrun, horders.lt.mpr (by decide)⟩

end Jos.Strings
