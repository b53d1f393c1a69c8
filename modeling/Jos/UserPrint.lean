import Jos.Lib.Batches
import Jos.Directives

/-!
The user's `vcprintf` cuts what the formatter prints into `sys_cputs` calls of 255 bytes.
-/

namespace Jos

open Batches

namespace PrintBuf

/-- The buffer before the first character. -/
def start (stack : Nat → UInt8) : PrintBuf := ⟨0, 0, stack, []⟩

def run (stack : Nat → UInt8) (out : List Int32) : PrintBuf :=
  out.foldl (fun b ch => b.putch ch) (start stack)

/-- The bytes below `idx` are the ones that are collected; the calls have sent the others. -/
structure Collects (b : PrintBuf) (c : Collected UInt8 255) : Prop where
  idx : b.idx.toInt = c.held.length
  bytes : (List.range c.held.length).map b.buf = c.held
  cputs : b.cputs = c.sent

variable {b : PrintBuf} {c : Collected UInt8 255}

theorem Collects.idx_nat (h : b.Collects c) : b.idx.toNatClampNeg = c.held.length := by
  rw [← Int32.toNat_toInt, h.idx, Int.toNat_natCast]

theorem Collects.start (stack : Nat → UInt8) :
    (start stack).Collects (.empty (by decide)) where
  idx := rfl
  bytes := rfl
  cputs := rfl

theorem Collects.sysCputs (h : b.Collects c) : b.sysCputs.cputs = c.flush := by
  unfold PrintBuf.sysCputs Collected.flush
  rw [h.cputs, h.idx_nat, h.bytes]

theorem Collects.store (h : b.Collects c) (ch : Int32) :
    (b.store ch).idx.toInt = (c.held ++ [ch.toUInt32.toUInt8]).length ∧
      (List.range (c.held.length + 1)).map (b.store ch).buf =
        c.held ++ [ch.toUInt32.toUInt8] := by
  have hone : (1 : Int32).toInt = 1 := rfl
  have hroom := c.room
  have hidx := h.idx
  constructor
  · change (b.idx + 1).toInt = _
    rw [Int32.toInt_add, hone, Int.bmod_eq_of_le (by omega) (by omega), List.length_append,
      List.length_singleton]
    omega
  · have hkept : (List.range c.held.length).map
        (Function.update b.buf c.held.length ch.toUInt32.toUInt8) = c.held := by
      conv_rhs => rw [← h.bytes]
      apply List.map_congr_left
      intro i hi
      exact Function.update_of_ne (List.mem_range.mp hi).ne _ _
    change (List.range _).map (Function.update b.buf b.idx.toNatClampNeg _) = _
    rw [h.idx_nat, List.range_succ, List.map_append, hkept, List.map_singleton,
      Function.update_self]

theorem Collects.putch (h : b.Collects c) (ch : Int32) :
    (b.putch ch).Collects (c.push ch.toUInt32.toUInt8) := by
  obtain ⟨hidx, hbytes⟩ := h.store ch
  have hcputs : (b.store ch).cputs = c.sent := h.cputs
  have hlast : (256 - 1 : Int32).toInt = 255 := rfl
  rw [List.length_append, List.length_singleton] at hidx
  unfold PrintBuf.putch Collected.push
  by_cases hfull : c.held.length + 1 = 255
  · have hidx' : (b.store ch).idx = 256 - 1 := by
      apply Int32.toInt.inj
      rw [hidx, hlast, hfull]
      rfl
    have hcount : (b.store ch).idx.toNatClampNeg = c.held.length + 1 := by
      rw [← Int32.toNat_toInt, hidx, Int.toNat_natCast]
    have hsent : (b.store ch).sysCputs.cputs =
        c.sent ++ [c.held ++ [ch.toUInt32.toUInt8]] := by
      unfold PrintBuf.sysCputs
      rw [hcputs, hcount, hbytes]
    rw [dif_pos hfull]
    dsimp only
    rw [if_pos hidx']
    exact ⟨rfl, rfl, hsent⟩
  · have hidx' : (b.store ch).idx ≠ 256 - 1 := by
      intro heq
      rw [heq, hlast] at hidx
      omega
    rw [dif_neg hfull]
    dsimp only
    rw [if_neg hidx']
    refine ⟨?_, ?_, hcputs⟩
    · rw [List.length_append, List.length_singleton]
      exact hidx
    · rw [List.length_append, List.length_singleton]
      exact hbytes

theorem Collects.foldl (h : b.Collects c) (out : List Int32) :
    (out.foldl (fun b ch => b.putch ch) b).Collects
      ((out.map (fun ch => ch.toUInt32.toUInt8)).foldl Collected.push c) := by
  induction out generalizing b c with
  | nil => exact h
  | cons ch out ih => exact ih (h.putch ch)

/-- After any number of characters the buffer holds those that are not sent yet. -/
theorem run_collects (stack : Nat → UInt8) (out : List Int32) :
    ∃ c, (run stack out).Collects c ∧ c.items = out.map (fun ch => ch.toUInt32.toUInt8) := by
  refine ⟨_, (Collects.start stack).foldl out, ?_⟩
  rw [Collected.items_foldl]
  rfl

theorem run_idx (stack : Nat → UInt8) (out : List Int32) :
    0 ≤ (run stack out).idx.toInt ∧ (run stack out).idx.toInt < 255 := by
  obtain ⟨c, hc, -⟩ := run_collects stack out
  have hroom := c.room
  have hidx := hc.idx
  omega

end PrintBuf

/-- What the user's `vcprintf` passes to `sys_cputs` is what the formatter prints, in payloads
of at most 255 bytes; before each character its place in the buffer is one of the 256, and the
result is the number of characters. -/
def CutsOutput (fmt : CString) (args : Args) (stack : Nat → UInt8) : Prop :=
  ∃ out count payloads, formatted fmt args = .ok out ∧
    userVcprintf fmt args stack = .ok (count, payloads) ∧
    payloads.flatten = out.map (fun ch => ch.toUInt32.toUInt8) ∧
    (∀ payload ∈ payloads, payload.length ≤ 255) ∧
    (∀ n < out.length, 0 ≤ (PrintBuf.run stack (out.take n)).idx.toInt ∧
      (PrintBuf.run stack (out.take n)).idx.toInt < 256) ∧
    count.toInt = out.length

section

variable {fmt : CString} {args : Args} {stack : Nat → UInt8} {out : List Int32}

theorem userVcprintf_eq (h : formatted fmt args = .ok out) (stack : Nat → UInt8) :
    userVcprintf fmt args stack =
      .ok (Int32.ofNat out.length, (PrintBuf.run stack out).sysCputs.cputs) := by
  have hcount : (PrintBuf.run stack out).cnt = Int32.ofNat out.length := by
    unfold PrintBuf.run
    rw [foldl_printBuf_cnt]
    exact Int32.zero_add _
  unfold userVcprintf
  rw [h, ← hcount]
  rfl

theorem cutsOutput_iff_fits (h : formatted fmt args = .ok out) :
    CutsOutput fmt args stack ↔ out.length < 2 ^ 31 := by
  obtain ⟨c, hc, hitems⟩ := PrintBuf.run_collects stack out
  rw [← Spelling.ofNat_eq_iff]
  constructor
  · rintro ⟨out', count, payloads, hout, hrun, -, -, -, hcount⟩
    rw [h] at hout
    obtain rfl := Except.ok.inj hout
    rw [userVcprintf_eq h] at hrun
    obtain ⟨rfl, -⟩ := Prod.mk.inj (Except.ok.inj hrun)
    exact hcount
  · intro hcount
    refine ⟨out, _, _, h, userVcprintf_eq h stack, ?_, ?_, ?_, hcount⟩
    · rw [hc.sysCputs, c.flatten_flush, hitems]
    · intro payload hmem
      rw [hc.sysCputs] at hmem
      exact c.length_of_mem_flush hmem
    · intro n _
      have hidx := PrintBuf.run_idx stack (out.take n)
      omega

/-- The user's `vcprintf` prints what the formatter prints, cut into calls, and returns its
length exactly when the length is an `int`. -/
theorem user_print_iff (fmt : CString) (args : Args) (stack : Nat → UInt8) :
    CutsOutput fmt args stack ↔ ∃ out, formatted fmt args = .ok out ∧ out.length < 2 ^ 31 := by
  obtain ⟨out, hout, -⟩ := formatted_silent fmt args
  rw [cutsOutput_iff_fits hout]
  constructor
  · exact fun hfits => ⟨out, hout, hfits⟩
  · rintro ⟨out', hout', hfits⟩
    rw [hout] at hout'
    obtain rfl := Except.ok.inj hout'
    exact hfits

theorem Prints.formatted {fuel : Nat} (h : Prints fuel fmt args 0 0 out)
    (hfuel : fuel ≤ fmt.bytes.length + 9) : formatted fmt args = .ok out :=
  h _ hfuel

/-- The width `0x7FFFFFFF`, and the number 0. -/
def widest : Args := fun ap => if ap = 0 then ⟨0x7FFFFFFF, .lit ""⟩ else ⟨0, .lit ""⟩

theorem widest_length :
    ∃ out, formatted (.lit "%*da") widest = .ok out ∧ out.length = 2 ^ 31 := by
  have hread : StandsIn (.lit "%*da") 0 [0x25, 0x2A, 0x64, 0x61] :=
    Spelling.standsIn_bytes (by decide)
  have hletter : ¬ Modifier 'd'.toUInt8 := by
    unfold Modifier
    decide
  have hparse : reswitch (.lit "%*da") widest {} 1 0 =
      .ok ('d'.toUInt8, { width := 0x7FFFFFFF }, 3, 1) := by
    rw [reswitch_star hread.tail.head]
    exact reswitch_letter hread.tail.tail.head hletter _ _ 1
  have hconvert : convert 'd'.toUInt8 { width := 0x7FFFFFFF } widest 1 =
      .put (printnum 0 .decimal 0x7FFFFFFF ' '.toUInt8) 2 := rfl
  have hend : Prints 1 (.lit "%*da") widest 4 2 [] := Prints.nul (by decide)
  have hlast : Prints 2 (.lit "%*da") widest 3 2 [ucharToInt 'a'.toUInt8] :=
    hend.text hread.tail.tail.tail.head (by decide) (by decide)
  have hprints := Prints.put hread.head hparse hlast hconvert
  have hbelow : ¬ Base.decimal.val ≤ 0 := by decide
  have hfuel : 3 ≤ (CString.lit "%*da").bytes.length + 9 := by omega
  have hleft : ((0x7FFFFFFF : Int32) - 1).toInt = 2 ^ 31 - 2 := by decide
  have hpad : (putPad (0x7FFFFFFF - 1) ' '.toUInt8).length = 2 ^ 31 - 2 := by
    unfold putPad
    rw [List.length_replicate, ← Int32.toNat_toInt, hleft]
    omega
  have hdigits : printnum 0 .decimal 0x7FFFFFFF ' '.toUInt8 =
      putPad (0x7FFFFFFF - 1) ' '.toUInt8 ++ [charToInt '0'.toUInt8] := by
    rw [printnum, if_neg hbelow]
    rfl
  have hsum : ∀ n, n = 2 ^ 31 - 2 → n + 1 + 1 = 2 ^ 31 := by omega
  refine ⟨_, hprints.formatted hfuel, ?_⟩
  rw [hdigits, List.length_append, List.length_append, List.length_singleton,
    List.length_singleton]
  generalize (putPad (0x7FFFFFFF - 1) ' '.toUInt8).length = n at hpad ⊢
  exact hsum n hpad

/-- `%*da` prints `2 ^ 31` characters, and the count of them comes out negative. -/
theorem count_wrapped : ¬ CutsOutput (.lit "%*da") widest (fun _ => 0) := by
  obtain ⟨out, hout, hlength⟩ := widest_length
  rw [cutsOutput_iff_fits hout]
  exact hlength.ge.not_gt

end

end Jos
