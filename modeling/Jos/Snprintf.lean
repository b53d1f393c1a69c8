import Jos.Memmove
import Jos.Printf

/-!
`vsnprintf` cuts the output of the formatter to the caller's buffer: the count
goes on where the buffer is full, and the terminator always has room. It finds the end of the
buffer by an address, which has to lie in the address space.
-/

namespace Jos

variable {mem : UInt32 → UInt8} {dst : UInt32} {room : Nat} {w : List Int32} {b : SprintBuf}
  {fmt : CString} {args : Args} {n : Int32}

/-- The sink after the characters `w`, over memory that was `mem`: what has room stands at `dst`,
and the rest of memory is as it was. -/
structure SprintBuf.Stores (mem : UInt32 → UInt8) (dst : UInt32) (room : Nat) (w : List Int32)
    (b : SprintBuf) : Prop where
  place : b.buf = byteAfter dst (min w.length room)
  full : b.ebuf = byteAfter dst room
  stored : ∀ i ch, i < room → w[i]? = some ch → b.mem (byteAfter dst i) = ch.toUInt32.toUInt8
  others : ∀ a, (∀ i < min w.length room, a ≠ byteAfter dst i) → b.mem a = mem a

theorem SprintBuf.Stores.room_iff (h : b.Stores mem dst room w)
    (hroom : dst.toNat + room < 2 ^ 32) :
    b.buf < b.ebuf ↔ w.length < room := by
  rw [h.place, h.full, UInt32.lt_iff_toNat_lt, byteAfter_toNat hroom, byteAfter_toNat (by omega)]
  omega

theorem SprintBuf.Stores.sprintputch (h : b.Stores mem dst room w)
    (hroom : dst.toNat + room < 2 ^ 32) (ch : Int32) :
    (b.sprintputch ch).Stores mem dst room (w ++ [ch]) := by
  have hlength : (w ++ [ch]).length = w.length + 1 := List.length_append
  have hiff := h.room_iff hroom
  unfold SprintBuf.sprintputch
  dsimp only
  split
  · next hlt =>
    have hshort := hiff.mp hlt
    have hplace : b.buf = byteAfter dst w.length := by
      rw [h.place, Nat.min_eq_left (by omega)]
    constructor
    · rw [hplace, hlength, Nat.min_eq_left (by omega)]
      exact (byteAfter_add dst w.length 1).symm
    · exact h.full
    · intro i c hi hc
      dsimp only
      rw [hplace]
      by_cases hlast : i = w.length
      · subst hlast
        rw [List.getElem?_concat_length] at hc
        rw [Function.update_self, Option.some.inj hc]
      · have hbound := (List.getElem?_eq_some_iff.mp hc).1
        rw [List.getElem?_append_left (by omega)] at hc
        have hother := mt (byteAfter_inj (p := dst) (by omega) (by omega)) hlast
        rw [Function.update_of_ne hother]
        exact h.stored i c hi hc
    · intro a ha
      rw [hlength, Nat.min_eq_left (by omega)] at ha
      dsimp only
      rw [hplace, Function.update_of_ne (ha w.length (Nat.lt_succ_self _))]
      refine h.others a fun i hi => ha i ?_
      omega
  · next hge =>
    have hlong : room ≤ w.length := Nat.le_of_not_lt fun hlt => hge (hiff.mpr hlt)
    constructor
    · dsimp only
      rw [h.place, hlength, Nat.min_eq_right hlong, Nat.min_eq_right (by omega)]
    · exact h.full
    · intro i c hi hc
      rw [List.getElem?_append_left (by omega)] at hc
      exact h.stored i c hi hc
    · intro a ha
      refine h.others a fun i hi => ha i ?_
      omega

/-- The invariant over a whole output. -/
theorem SprintBuf.Stores.foldl (out : List Int32) (h : b.Stores mem dst room w)
    (hroom : dst.toNat + room < 2 ^ 32) :
    (out.foldl (fun b ch => b.sprintputch ch) b).Stores mem dst room (w ++ out) := by
  induction out generalizing b w with
  | nil =>
    rw [List.append_nil]
    exact h
  | cons ch out ih =>
    have hstores := ih (h.sprintputch hroom ch)
    rwa [List.append_assoc, List.singleton_append] at hstores

theorem SprintBuf.Stores.initial (mem : UInt32 → UInt8) (dst : UInt32) (room : Nat) :
    (⟨dst, byteAfter dst room, 0, mem⟩ : SprintBuf).Stores mem dst room [] where
  place := by
    rw [List.length_nil, Nat.zero_min]
    exact (byteAfter_zero dst).symm
  full := rfl
  stored _ _ _ hread := by cases hread
  others _ _ := rfl

/-- The memory `mem'` is `mem` with the first `size - 1` characters of `w` and a NUL behind them
at `dst`. -/
structure Truncated (mem mem' : UInt32 → UInt8) (dst : UInt32) (size : Nat) (w : List Int32) :
    Prop where
  text : ∀ i ch, i < size - 1 → w[i]? = some ch → mem' (byteAfter dst i) = ch.toUInt32.toUInt8
  nul : mem' (byteAfter dst (min w.length (size - 1))) = 0
  others : ∀ a, (∀ i ≤ min w.length (size - 1), a ≠ byteAfter dst i) → mem' a = mem a

theorem SprintBuf.Stores.terminate (h : b.Stores mem dst room w)
    (hroom : dst.toNat + room < 2 ^ 32) :
    Truncated mem (Function.update b.mem b.buf 0) dst (room + 1) w where
  text i ch hi hread := by
    have hlt := (List.getElem?_eq_some_iff.mp hread).1
    have hne : i ≠ min w.length room := by omega
    rw [h.place, Function.update_of_ne (mt (byteAfter_inj (by omega) (by omega)) hne)]
    exact h.stored i ch hi hread
  nul := by
    rw [Nat.add_sub_cancel, ← h.place, Function.update_self]
  others a ha := by
    rw [Nat.add_sub_cancel] at ha
    rw [h.place, Function.update_of_ne (ha _ (Nat.le_refl _))]
    exact h.others a fun i hi => ha i hi.le

/-- Where the end of the buffer does not lie behind its beginning nothing is stored. -/
theorem SprintBuf.foldl_full (out : List Int32) (h : ¬ b.buf < b.ebuf) :
    (out.foldl (fun b ch => b.sprintputch ch) b).buf = b.buf ∧
      (out.foldl (fun b ch => b.sprintputch ch) b).mem = b.mem := by
  induction out generalizing b with
  | nil => exact ⟨rfl, rfl⟩
  | cons ch out ih =>
    have hstep : b.sprintputch ch = { b with cnt := b.cnt + 1 } := if_neg h
    rw [List.foldl_cons, hstep]
    exact ih h

theorem byteAfter_last (dst : UInt32) (hn : 1 ≤ n) :
    dst + n.toUInt32 - 1 = byteAfter dst (n.toNatClampNeg - 1) := by
  have hpos : 0 < n := Int32.lt_of_lt_of_le (by decide) hn
  have hsize := Int32.toNatClampNeg_pos_iff n |>.mpr hpos
  have hend : dst + n.toUInt32 = byteAfter dst (n.toNatClampNeg - 1 + 1) := by
    rw [Nat.sub_add_cancel hsize, byteAfter, ← Int32.toNat_toUInt32_of_le (Int32.le_of_lt hpos),
      UInt32.ofNat_toNat]
  rw [hend, byteAfter_add]
  exact UInt32.add_sub_cancel _ 1

/-- The buffer has its last byte in the address space. -/
def EndsInside (buf : UInt32) (n : Int32) : Prop := buf.toNat + (n.toNatClampNeg - 1) < 2 ^ 32

/-- Otherwise the address of its end wraps around, and only the NUL is stored. -/
theorem sprinted_wrapped (mem : UInt32 → UInt8) {buf : UInt32} (hn : 1 ≤ n)
    (hwrap : ¬ EndsInside buf n) (out : List Int32) :
    (sprinted mem buf n out).buf = buf ∧ (sprinted mem buf n out).mem = mem := by
  unfold EndsInside at hwrap
  refine SprintBuf.foldl_full out ?_
  change ¬ buf < buf + n.toUInt32 - 1
  rw [byteAfter_last buf hn, UInt32.lt_iff_toNat_lt, byteAfter, UInt32.toNat_add,
    UInt32.toNat_ofNat']
  have hbuf := buf.toNat_lt
  have hsize := n.toNatClampNeg_lt
  omega

theorem sprinted_inside (mem : UInt32 → UInt8) {buf : UInt32} (hn : 1 ≤ n)
    (hinside : EndsInside buf n) (out : List Int32) :
    Truncated mem (Function.update (sprinted mem buf n out).mem (sprinted mem buf n out).buf 0) buf
      n.toNatClampNeg out := by
  have hsize := Int32.toNatClampNeg_pos_iff n |>.mpr (Int32.lt_of_lt_of_le (by decide) hn)
  have hstores := (SprintBuf.Stores.initial mem buf (n.toNatClampNeg - 1)).foldl out hinside
  have hcut := hstores.terminate hinside
  rw [Nat.sub_add_cancel hsize, ← byteAfter_last buf hn] at hcut
  exact hcut

/-- `vsnprintf` leaves the beginning of the full output `w`, as long as it has room before the NUL,
writes nothing else, and returns the length of the full output. -/
def Truncates (fmt : CString) (args : Args) (buf : UInt32) (n : Int32) (w : List Int32) : Prop :=
  ∀ mem, ∃ count mem', vsnprintf buf n fmt args mem = .ok (count, mem') ∧
    count.toInt = w.length ∧ Truncated mem mem' buf n.toNatClampNeg w

theorem truncates_of_inside {buf : UInt32} (hw : formatted fmt args = .ok w)
    (hshort : w.length < 2 ^ 31) (hbuf : buf ≠ 0) (hn : 1 ≤ n) (hinside : EndsInside buf n) :
    Truncates fmt args buf n w := fun mem =>
  ⟨_, _, vsnprintf_run hw mem hbuf (Int32.not_lt.mpr hn), Int32.toInt_ofNat_of_lt hshort,
    sprinted_inside mem hn hinside w⟩

theorem truncates_of_empty {buf : UInt32} (hw : formatted fmt args = .ok []) (hbuf : buf ≠ 0)
    (hn : 1 ≤ n) : Truncates fmt args buf n [] := by
  intro mem
  refine ⟨_, _, vsnprintf_run hw mem hbuf (Int32.not_lt.mpr hn), rfl, ?_, ?_, ?_⟩
  · exact fun i ch _ hread => by cases hread
  · rw [List.length_nil, Nat.zero_min, byteAfter_zero]
    exact Function.update_self ..
  · intro a ha
    have hne := ha 0 (Nat.zero_le _)
    rw [byteAfter_zero] at hne
    exact Function.update_of_ne hne ..

/-- The NUL behind the output is missing where the memory was not clear. -/
theorem not_truncates_of_wrap {buf : UInt32} (hw : formatted fmt args = .ok w) (hne : w ≠ [])
    (hbuf : buf ≠ 0) (hn : 1 ≤ n) (hwrap : ¬ EndsInside buf n) : ¬ Truncates fmt args buf n w := by
  intro h
  obtain ⟨count, mem', hrun, -, hcut⟩ := h fun _ => 1
  rw [vsnprintf_run hw _ hbuf (Int32.not_lt.mpr hn)] at hrun
  obtain ⟨hplace, hmem⟩ := sprinted_wrapped (fun _ => 1) hn hwrap w
  have hnul := hcut.nul
  have hmem' : mem' = Function.update (fun _ => 1) buf 0 := by
    rw [hplace, hmem] at hrun
    exact (congrArg Prod.snd (Except.ok.inj hrun)).symm
  have hpos := List.length_pos_iff.mpr hne
  unfold EndsInside at hwrap
  have hlow := buf.toNat_lt
  have hhigh := n.toNatClampNeg_lt
  have hother : byteAfter buf (min w.length (n.toNatClampNeg - 1)) ≠ buf := by
    intro heq
    have hsame := byteAfter_inj (j := 0) (by omega) (by omega) (heq.trans (byteAfter_zero buf).symm)
    omega
  rw [hmem', Function.update_of_ne hother] at hnul
  exact absurd hnul (by decide)

/-- `vsnprintf` truncates the full output whatever memory holds exactly when the buffer ends inside
the address space or nothing is printed; without a buffer or room for the NUL it writes nothing. -/
theorem vsnprintf_truncates_iff (fmt : CString) (args : Args) (w : List Int32)
    (hw : formatted fmt args = .ok w) (hshort : w.length < 2 ^ 31) (buf : UInt32) (n : Int32) :
    (buf ≠ 0 → 1 ≤ n →
      (Truncates fmt args buf n w ↔ EndsInside buf n ∨ Silent fmt args 0 0)) ∧
    (buf = 0 ∨ n < 1 → ∀ mem, vsnprintf buf n fmt args mem = .ok (-eInval, mem)) := by
  obtain ⟨out, hout, hsilent⟩ := formatted_silent fmt args
  obtain rfl : w = out := Except.ok.inj (hw.symm.trans hout)
  constructor
  · intro hbuf hn
    rw [← hsilent]
    constructor
    · intro htruncates
      by_contra hnot
      obtain ⟨hwrap, hne⟩ := not_or.mp hnot
      exact not_truncates_of_wrap hw hne hbuf hn hwrap htruncates
    · rintro (hinside | rfl)
      · exact truncates_of_inside hw hshort hbuf hn hinside
      · exact truncates_of_empty hw hbuf hn
  · exact fun hrefused mem => if_pos hrefused

/-- `"ab"` into two bytes. -/
theorem vsnprintf_truncates_iff_two :
    Truncates (.lit "ab") (fun _ => stringArg (.lit "")) 0xF0200000 2 [0x61, 0x62] :=
  ((vsnprintf_truncates_iff (.lit "ab") _ [0x61, 0x62] rfl (by decide) 0xF0200000 2).1 (by decide)
    (by decide)).mpr (.inl (by unfold EndsInside; decide))

/-- `"a"` with the largest size, for a buffer in the upper half of memory. -/
theorem vsnprintf_end_wraps :
    formatted (.lit "a") (fun _ => stringArg (.lit "")) = .ok [0x61] ∧
      (0xF0200000 : UInt32) ≠ 0 ∧ (1 : Int32) ≤ 0x7FFFFFFF ∧
      ¬ Truncates (.lit "a") (fun _ => stringArg (.lit "")) 0xF0200000 0x7FFFFFFF [0x61] :=
  ⟨rfl, by decide, by decide, not_truncates_of_wrap rfl (by decide) (by decide) (by decide)
    (by unfold EndsInside; decide)⟩

end Jos
