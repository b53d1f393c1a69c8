import Jos.Console
import Jos.PrintfmtRuns

/-!
The three callers of the formatter: the kernel's `vcprintf`, which prints on
the console, the user's `vcprintf`, which collects the characters for
`sys_cputs`, and `vsnprintf`, which stores them.
-/

namespace Jos

/-- `vprintfmt` with fuel that always suffices. -/
def formatted (fmt : CString) (args : Args) : Except Fault (List Int32) :=
  vprintfmt (fmt.bytes.length + 9) fmt args

/-- The console, and the `cnt` of `vcprintf` that `putch` has a pointer to. -/
structure KernelPrint where
  console : Console
  cnt : Int32

/-- `*cnt++` steps the parameter `cnt`, which is a pointer, and leaves what it
points to as it is. -/
def KernelPrint.putch (ch : Int32) (b : KernelPrint) : KernelPrint :=
  { b with console := b.console.cputchar ch.toUInt32 }

/-- The kernel's `vcprintf`: its result, and the console it leaves. -/
def vcprintf (fmt : CString) (args : Args) (console : Console) :
    Except Fault (Int32 × Console) := do
  let out ← formatted fmt args
  let b := out.foldl (fun b ch => b.putch ch) (⟨console, 0⟩ : KernelPrint)
  return (b.cnt, b.console)

def cprintf (fmt : CString) (args : Args) (console : Console) :
    Except Fault (Int32 × Console) :=
  vcprintf fmt args console

/-- `struct printbuf`, with the payloads of the `sys_cputs` calls so far. -/
structure PrintBuf where
  idx : Int32
  cnt : Int32
  buf : Nat → UInt8
  cputs : List (List UInt8)

namespace PrintBuf

/-- `sys_cputs(b->buf, b->idx)` -/
def sysCputs (b : PrintBuf) : PrintBuf :=
  { b with cputs := b.cputs ++ [(List.range b.idx.toNatClampNeg).map b.buf] }

def store (ch : Int32) (b : PrintBuf) : PrintBuf :=
  { b with buf := Function.update b.buf b.idx.toNatClampNeg ch.toUInt32.toUInt8
           idx := b.idx + 1 }

def putch (ch : Int32) (b : PrintBuf) : PrintBuf :=
  let b := b.store ch
  let b := if b.idx = 256 - 1 then { b.sysCputs with idx := 0 } else b
  { b with cnt := b.cnt + 1 }

end PrintBuf

/-- The user's `vcprintf`: its result, and what it passes to `sys_cputs`. The
buffer starts with arbitrary bytes. -/
def userVcprintf (fmt : CString) (args : Args) (stack : Nat → UInt8) :
    Except Fault (Int32 × List (List UInt8)) := do
  let out ← formatted fmt args
  let b := out.foldl (fun b ch => b.putch ch) (⟨0, 0, stack, []⟩ : PrintBuf)
  return (b.cnt, b.sysCputs.cputs)

/-- `struct sprintbuf`, and memory; addresses wrap around. -/
structure SprintBuf where
  buf : UInt32
  ebuf : UInt32
  cnt : Int32
  mem : UInt32 → UInt8

def SprintBuf.sprintputch (ch : Int32) (b : SprintBuf) : SprintBuf :=
  let b := { b with cnt := b.cnt + 1 }
  if b.buf < b.ebuf then
    { b with mem := Function.update b.mem b.buf ch.toUInt32.toUInt8, buf := b.buf + 1 }
  else b

def eInval : Int32 := 3

/-- `vsnprintf`: its result, and memory; 0 is NULL. What the format and its arguments say is not
read from the buffer. -/
def vsnprintf (buf : UInt32) (n : Int32) (fmt : CString) (args : Args) (mem : UInt32 → UInt8) :
    Except Fault (Int32 × (UInt32 → UInt8)) :=
  let b : SprintBuf := ⟨buf, buf + n.toUInt32 - 1, 0, mem⟩
  if buf = 0 ∨ n < 1 then .ok (-eInval, mem)
  else do
    let out ← formatted fmt args
    let b := out.foldl (fun b ch => b.sprintputch ch) b
    return (b.cnt, Function.update b.mem b.buf 0)

/-- From `pos` on the format holds nothing but `%s` directives, each without a
width to fill and with no characters to show. -/
inductive Silent (fmt : CString) (args : Args) : Nat → Nat → Prop
  | nul {pos ap : Nat} (hread : fmt.byteAt pos = some 0) : Silent fmt args pos ap
  | string {pos ap pos' ap' : Nat} {d : Directive}
      (hread : fmt.byteAt pos = some '%'.toUInt8)
      (hparse : reswitch fmt args {} (pos + 1) ap = .ok ('s'.toUInt8, d, pos', ap'))
      (hwidth : d.width ≤ 0)
      (hempty : ((args ap').word ≠ 0 ∧ (args ap').str.bytes = []) ∨ d.precision = 0)
      (hrest : Silent fmt args pos' (ap' + 1)) : Silent fmt args pos ap

/-- Only `%s` may print nothing. -/
theorem convert_ne_nil {ch : UInt8} {d : Directive} {args : Args} {ap next : Nat}
    {shown : List Int32} (hs : ch ≠ 's'.toUInt8)
    (h : convert ch d args ap = .put shown next) : shown ≠ [] := by
  have hdigits := printnum_ne_nil
  unfold convert at h
  split_ifs at h with hc he hd hu ho hp hx hpercent
  · cases h
    exact List.cons_ne_nil _ _
  · simp only at h
    split_ifs at h
    all_goals cases h
    · exact List.cons_ne_nil _ _
    · exact hdigits _ _ _ _
  · cases h
    exact hdigits _ _ _ _
  · cases h
    exact hdigits _ _ _ _
  · cases h
    exact List.cons_ne_nil _ _
  · cases h
    exact hdigits _ _ _ _
  · cases h
    exact List.cons_ne_nil _ _

theorem string_silent_iff (d : Directive) (args : Args) (ap : Nat) :
    putString d (if (args ap).word = 0 then .lit "(null)" else (args ap).str) = [] ↔
      d.width ≤ 0 ∧ (((args ap).word ≠ 0 ∧ (args ap).str.bytes = []) ∨ d.precision = 0) := by
  rw [putString_eq_nil_iff]
  split
  · next hnull =>
    have hbytes : (CString.lit "(null)").bytes ≠ [] := by decide
    simp [hnull, hbytes]
  · next hnull => simp [hnull]

section

variable {fmt : CString} {args : Args} {pos ap pos' ap' : Nat} {ch : UInt8} {d : Directive}

theorem Silent.not_text (h : Silent fmt args pos ap) (hread : fmt.byteAt pos = some ch)
    (hnul : ch ≠ 0) : ch = '%'.toUInt8 := by
  cases h with
  | nul hend =>
    rw [hread] at hend
    exact absurd (Option.some.inj hend) hnul
  | string hpercent =>
    rw [hread] at hpercent
    exact Option.some.inj hpercent

theorem Silent.letter (h : Silent fmt args pos ap) (hread : fmt.byteAt pos = some '%'.toUInt8)
    (hparse : reswitch fmt args {} (pos + 1) ap = .ok (ch, d, pos', ap')) :
    ch = 's'.toUInt8 := by
  cases h with
  | nul hend =>
    rw [hread] at hend
    exact absurd (Option.some.inj hend) (by decide)
  | string _ hstring =>
    rw [hparse] at hstring
    exact congrArg Prod.fst (Except.ok.inj hstring)

theorem silent_string_iff (hread : fmt.byteAt pos = some '%'.toUInt8)
    (hparse : reswitch fmt args {} (pos + 1) ap = .ok ('s'.toUInt8, d, pos', ap')) :
    Silent fmt args pos ap ↔ (d.width ≤ 0 ∧
      (((args ap').word ≠ 0 ∧ (args ap').str.bytes = []) ∨ d.precision = 0)) ∧
      Silent fmt args pos' (ap' + 1) := by
  constructor
  · intro h
    cases h with
    | nul hend =>
      rw [hread] at hend
      exact absurd (Option.some.inj hend) (by decide)
    | string _ hstring hwidth hempty hrest =>
      rw [hparse] at hstring
      cases hstring
      exact ⟨⟨hwidth, hempty⟩, hrest⟩
  · rintro ⟨⟨hwidth, hempty⟩, hrest⟩
    exact .string hread hparse hwidth hempty hrest

end

/-- The output from a place on is empty exactly when the format is silent from
there. -/
theorem RoundClosed.silent (fmt : CString) (args : Args) :
    RoundClosed fmt args (fun pos ap out => out = [] ↔ Silent fmt args pos ap) where
  nul hread := ⟨fun _ => .nul hread, fun _ => rfl⟩
  text hread hnul hpercent _ :=
    ⟨fun h => absurd h (List.cons_ne_nil _ _),
      fun h => absurd (h.not_text hread hnul) hpercent⟩
  put {_ _ _ _ _ ch _ _ _} hread hparse _ hconvert hout := by
    rw [List.append_eq_nil_iff, hout]
    by_cases hs : ch = 's'.toUInt8
    · subst hs
      obtain ⟨rfl, rfl⟩ := Conversion.put.inj hconvert
      rw [silent_string_iff hread hparse, string_silent_iff]
    · have hshown := convert_ne_nil hs hconvert
      exact ⟨fun h => absurd h.1 hshown, fun h => absurd (h.letter hread hparse) hs⟩
  printfmt hread hparse _ hconvert hshown _ := by
    rw [List.append_eq_nil_iff]
    constructor
    · exact fun h => absurd h.1 hshown
    · intro h
      obtain rfl := h.letter hread hparse
      cases hconvert
  unrecognized hread hparse _ hletter _ := by
    constructor
    · exact fun h => absurd h (List.cons_ne_nil _ _)
    · intro h
      obtain rfl := h.letter hread hparse
      exact absurd (by unfold Recognized; decide) hletter

theorem formatted_silent (fmt : CString) (args : Args) :
    ∃ out, formatted fmt args = .ok out ∧ (out = [] ↔ Silent fmt args 0 0) := by
  obtain ⟨out, hout, hiff⟩ := prints_from (RoundClosed.silent fmt args) 0 0 (Nat.zero_le _)
  exact ⟨out, hout _ (le_refl _), hiff⟩

theorem foldl_putch (out : List Int32) (b : KernelPrint) :
    out.foldl (fun b ch => b.putch ch) b =
      ⟨b.console.cputchars (out.map Int32.toUInt32), b.cnt⟩ := by
  induction out generalizing b with
  | nil => rfl
  | cons ch out ih => exact ih (b.putch ch)

/-- The kernel's count never moves. -/
theorem vcprintf_run {fmt : CString} {args : Args} {out : List Int32}
    (h : formatted fmt args = .ok out) (console : Console) :
    vcprintf fmt args console = .ok (0, console.cputchars (out.map Int32.toUInt32)) := by
  unfold vcprintf
  rw [h]
  change Except.ok _ = _
  rw [foldl_putch]

theorem foldl_printBuf_cnt (out : List Int32) (b : PrintBuf) :
    (out.foldl (fun b ch => b.putch ch) b).cnt = b.cnt + Int32.ofNat out.length := by
  induction out generalizing b with
  | nil => simp
  | cons ch out ih =>
    have hcnt : (b.putch ch).cnt = b.cnt + 1 := by
      unfold PrintBuf.putch
      dsimp only
      split <;> rfl
    have hone : Int32.ofNat 1 = 1 := rfl
    rw [List.foldl_cons, ih, hcnt, List.length_cons, Int32.ofNat_add, hone]
    ac_rfl

theorem userVcprintf_run {fmt : CString} {args : Args} {out : List Int32}
    (h : formatted fmt args = .ok out) (stack : Nat → UInt8) :
    ∃ cputs, userVcprintf fmt args stack = .ok (Int32.ofNat out.length, cputs) := by
  refine ⟨(out.foldl (fun b ch => b.putch ch) (⟨0, 0, stack, []⟩ : PrintBuf)).sysCputs.cputs, ?_⟩
  unfold userVcprintf
  rw [h]
  change Except.ok _ = _
  rw [foldl_printBuf_cnt, Int32.zero_add]

theorem foldl_sprintBuf_cnt (out : List Int32) (b : SprintBuf) :
    (out.foldl (fun b ch => b.sprintputch ch) b).cnt = b.cnt + Int32.ofNat out.length := by
  induction out generalizing b with
  | nil => simp
  | cons ch out ih =>
    have hcnt : (b.sprintputch ch).cnt = b.cnt + 1 := by
      unfold SprintBuf.sprintputch
      dsimp only
      split <;> rfl
    have hone : Int32.ofNat 1 = 1 := rfl
    rw [List.foldl_cons, ih, hcnt, List.length_cons, Int32.ofNat_add, hone]
    ac_rfl

/-- The sink of `vsnprintf` after the characters `out`. -/
def sprinted (mem : UInt32 → UInt8) (buf : UInt32) (n : Int32) (out : List Int32) : SprintBuf :=
  out.foldl (fun b ch => b.sprintputch ch) ⟨buf, buf + n.toUInt32 - 1, 0, mem⟩

theorem vsnprintf_run {fmt : CString} {args : Args} {out : List Int32} {buf : UInt32}
    (h : formatted fmt args = .ok out) (mem : UInt32 → UInt8) {n : Int32} (hbuf : buf ≠ 0)
    (hn : ¬ n < 1) :
    vsnprintf buf n fmt args mem = .ok (Int32.ofNat out.length,
      Function.update (sprinted mem buf n out).mem (sprinted mem buf n out).buf 0) := by
  unfold vsnprintf
  dsimp only
  rw [if_neg (not_or.mpr ⟨hbuf, hn⟩), h]
  change Except.ok _ = _
  rw [foldl_sprintBuf_cnt, Int32.zero_add]
  rfl

/-- The kernel's count is the number of characters passed to `cputchar`, and
the one that the other printers return, exactly when the format is silent:
`putch` never counts. -/
theorem kernel_count_iff_silent (fmt : CString) (args : Args) (console : Console)
    (stack : Nat → UInt8) :
    ∃ out kernel user cputs, formatted fmt args = .ok out ∧
      vcprintf fmt args console =
        .ok (kernel, console.cputchars (out.map Int32.toUInt32)) ∧
      cprintf fmt args console = vcprintf fmt args console ∧
      userVcprintf fmt args stack = .ok (user, cputs) ∧
      ((kernel.toInt = out.length ∧ kernel = user ∧
          ∀ buf n mem, buf ≠ 0 → 1 ≤ n →
            ∃ mem', vsnprintf buf n fmt args mem = .ok (kernel, mem')) ↔
        Silent fmt args 0 0) := by
  obtain ⟨out, hout, hsilent⟩ := formatted_silent fmt args
  obtain ⟨cputs, huser⟩ := userVcprintf_run hout stack
  refine ⟨out, 0, Int32.ofNat out.length, cputs, hout, vcprintf_run hout console, rfl, huser, ?_⟩
  rw [← hsilent]
  constructor
  · rintro ⟨hcount, -⟩
    have hzero : (0 : Int32).toInt = 0 := rfl
    rw [hzero] at hcount
    exact List.length_eq_zero_iff.mp (Int.ofNat_eq_zero.mp hcount.symm)
  · rintro rfl
    refine ⟨rfl, rfl, ?_⟩
    intro buf n mem hbuf hn
    exact ⟨_, vsnprintf_run hout mem hbuf (Int32.not_lt.mpr hn)⟩

theorem vcprintf_loses_count :
    formatted (.lit "a") (fun _ => stringArg (.lit "")) = .ok [0x61] ∧
      vcprintf (.lit "a") (fun _ => stringArg (.lit "")) .idle =
        .ok (0, Console.idle.cputchars [0x61]) ∧
      (0 : Int32).toInt ≠ ([0x61] : List Int32).length := by
  have hout : formatted (.lit "a") (fun _ => stringArg (.lit "")) = .ok [0x61] := rfl
  exact ⟨hout, vcprintf_run hout .idle, by decide⟩

end Jos
