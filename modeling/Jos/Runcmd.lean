import Jos.Printf
import Jos.Strings
import Jos.Lib.Words

/-!
The command interpreter of the kernel monitor, `runcmd`. The command buffer is the memory
that it may use: a read outside of it is an error, and so is a store outside of `argv`.
-/

namespace Jos.Runcmd

/-- `*p` -/
def load (mem : List UInt8) (p : Nat) : Except Fault UInt8 :=
  match mem[p]? with
  | some c => .ok c
  | none => .error .outside

/-- The offset of the first `c` in a string, or none. -/
def strchr (s : CString) (c : UInt8) : Option Nat := s.bytes.findIdx? (fun b => b = c)

/-- `strcmp` of the string at `p` with another one, which ends it at its NUL or before. -/
def strcmp (mem : List UInt8) (p : Nat) (q : CString) : Except Fault Int32 :=
  Strings.strcmpBy (load mem) (load (q.bytes ++ [0])) (q.bytes.length + 1) p 0

/-- The string at `p`. -/
def stringAt (mem : List UInt8) (p : Nat) : Except Fault CString :=
  if 0 ∈ mem.drop p then
    .ok ⟨(mem.drop p).takeWhile (fun c => c ≠ 0), fun _ hc => by
      simpa using List.mem_takeWhile_imp hc⟩
  else .error .outside

inductive Handler where
  | monHelp
  | monKerninfo
  | monBacktrace
deriving DecidableEq

structure Command where
  name : CString
  func : Handler

def commands : List Command :=
  [⟨.lit "help", .monHelp⟩, ⟨.lit "kerninfo", .monKerninfo⟩, ⟨.lit "backtrace", .monBacktrace⟩]

def whitespace : CString := .lit "\t\r\n "

def maxArgs : Nat := 16

/-- Pointers into the command buffer; none is `NULL`. -/
abbrev Argv := Nat → Option Nat

/-- `argv[i] = p` -/
def setArgv (i : Nat) (p : Option Nat) (argv : Argv) : Except Fault Argv :=
  if i < maxArgs then .ok (Function.update argv i p) else .error .outside

/-- `while (*buf && strchr(WHITESPACE, *buf)) *buf++ = 0;` -/
def gobble (mem : List UInt8) (buf : Nat) : Except Fault (List UInt8 × Nat) :=
  if hbuf : buf < mem.length then
    let c := mem[buf]
    if c ≠ 0 ∧ strchr whitespace c ≠ none then gobble (mem.set buf 0) (buf + 1)
    else .ok (mem, buf)
  else .error .outside
termination_by mem.length - buf
decreasing_by
  rw [List.length_set]
  omega

/-- `while (*buf && !strchr(WHITESPACE, *buf)) buf++;` -/
def scan (mem : List UInt8) (buf : Nat) : Except Fault Nat :=
  if hbuf : buf < mem.length then
    let c := mem[buf]
    if c ≠ 0 ∧ strchr whitespace c = none then scan mem (buf + 1)
    else .ok buf
  else .error .outside
termination_by mem.length - buf

/-- What the loop that parses the command buffer ends with. -/
inductive Parsed where
  | tooMany (mem : List UInt8)
  | args (mem : List UInt8) (argc : Nat) (argv : Argv)

/-- Parse the command buffer into whitespace-separated arguments. -/
def parse (mem : List UInt8) (buf argc : Nat) (argv : Argv) : Except Fault Parsed := do
  let (mem, buf) ← gobble mem buf
  let c ← load mem buf
  if c = 0 then return .args mem argc argv
  -- save and scan past next arg
  else if argc = maxArgs - 1 then return .tooMany mem
  else if _hargc : argc < maxArgs then
    let argv ← setArgv argc (some buf) argv
    let buf ← scan mem buf
    parse mem buf (argc + 1) argv
  else .error .outside
termination_by maxArgs - argc

/-- How a handler is called; `mem` is what `argv` points into. -/
structure Invocation where
  argc : Nat
  argv : Argv
  mem : List UInt8
  tf : UInt32

/-- `runcmd` at work: the command buffer, the console, and the calls of handlers. -/
structure Monitor where
  mem : List UInt8
  console : Console
  calls : List (Handler × Invocation)

/-- The loop over the table, with what is left of it. -/
def invoke (func : Handler → Invocation → Console → Int32 × Console) (argc : Nat) (argv : Argv)
    (tf : UInt32) (argv₀ : Nat) (s : Monitor) : List Command → Except Fault (Int32 × Monitor)
  | [] => do
    let name ← stringAt s.mem argv₀
    let (_, console) ← cprintf (.lit "Unknown command '%s'\n") (fun _ => stringArg name) s.console
    return (0, { s with console := console })
  | command :: rest => do
    let order ← strcmp s.mem argv₀ command.name
    if order = 0 then
      let call := ⟨argc, argv, s.mem, tf⟩
      let (result, console) := func command.func call s.console
      return (result, { s with console := console, calls := s.calls ++ [(command.func, call)] })
    else invoke func argc argv tf argv₀ s rest

/-- `runcmd(buf, tf)`. What the handlers do is a parameter; `argv` is not initialised. -/
def runcmd (func : Handler → Invocation → Console → Int32 × Console) (argv : Argv) (tf : UInt32)
    (s : Monitor) : Except Fault (Int32 × Monitor) := do
  let argv ← setArgv 0 none argv
  match ← parse s.mem 0 0 argv with
  | .tooMany mem =>
    let (_, console) ← cprintf (.lit "Too many arguments (max %d)\n")
      (fun _ => ⟨UInt32.ofNat maxArgs, .lit ""⟩) s.console
    return (0, { s with mem := mem, console := console })
  | .args mem argc argv =>
    let argv ← setArgv argc none argv
    let s := { s with mem := mem }
    -- Lookup and invoke the command
    if argc = 0 then return (0, s)
    else
      match argv 0 with
      | none => .error .outside
      | some argv₀ => invoke func argc argv tf argv₀ s commands

def isSpace (c : UInt8) : Bool := c = 0x09 ∨ c = 0x0D ∨ c = 0x0A ∨ c = 0x20

/-- What stays of a character that was passed. -/
def blank (c : UInt8) : UInt8 := if isSpace c then 0 else c

/-- The command buffer when `done` was parsed and `left` is still to be. -/
def during (done left : List UInt8) : List UInt8 := done.map blank ++ (left ++ [0])

section

variable {c : UInt8} {pre rest word : List UInt8} {argc : Nat} {argv : Argv}

theorem strchr_whitespace (c : UInt8) : strchr whitespace c = none ↔ isSpace c = false := by
  have hbytes : whitespace.bytes = [0x09, 0x0D, 0x0A, 0x20] := by decide
  unfold strchr isSpace
  rw [hbytes, List.findIdx?_eq_none_iff]
  simp only [List.mem_cons, List.not_mem_nil, or_false, forall_eq_or_imp, forall_eq,
    decide_eq_false_iff_not, not_or]
  grind

theorem during_get (pre rest : List UInt8) :
    (during pre rest)[pre.length]? = some (rest.headD 0) := by
  unfold during
  rw [List.getElem?_append_right (by rw [List.length_map]), List.length_map, Nat.sub_self]
  cases rest <;> rfl

theorem during_lt (pre rest : List UInt8) : pre.length < (during pre rest).length := by
  unfold during
  simp

theorem during_getElem (pre rest : List UInt8) (h : pre.length < (during pre rest).length) :
    (during pre rest)[pre.length] = rest.headD 0 :=
  Option.some.inj ((List.getElem?_eq_getElem h).symm.trans (during_get pre rest))

theorem during_pass (hc : isSpace c = false) (pre rest : List UInt8) :
    during pre (c :: rest) = during (pre ++ [c]) rest := by
  unfold during blank
  simp [hc]

theorem during_blank (hc : isSpace c = true) (pre rest : List UInt8) :
    (during pre (c :: rest)).set pre.length 0 = during (pre ++ [c]) rest := by
  unfold during blank
  rw [List.set_append_right _ _ (by rw [List.length_map]), List.length_map, Nat.sub_self]
  simp [hc]

theorem gobble_run (hrest : ∀ c ∈ rest, c ≠ 0) (pre : List UInt8) :
    gobble (during pre rest) pre.length =
      .ok (during (pre ++ rest.takeWhile isSpace) (rest.dropWhile isSpace),
        (pre ++ rest.takeWhile isSpace).length) := by
  induction rest generalizing pre with
  | nil =>
    rw [gobble, dif_pos (during_lt pre []), during_getElem]
    simp
  | cons c rest ih =>
    have hc := hrest c List.mem_cons_self
    rw [gobble, dif_pos (during_lt pre _), during_getElem, List.headD_cons]
    by_cases hspace : isSpace c = true
    · have hfound : strchr whitespace c ≠ none := by
        rw [ne_eq, strchr_whitespace]
        simp [hspace]
      rw [if_pos ⟨hc, hfound⟩, during_blank hspace, List.takeWhile_cons_of_pos hspace,
        List.dropWhile_cons_of_pos hspace]
      have hlater := ih (fun d hd => hrest d (List.mem_cons_of_mem c hd)) (pre ++ [c])
      have hlength : (pre ++ [c]).length = pre.length + 1 := List.length_append
      rw [List.append_assoc, List.singleton_append, hlength] at hlater
      exact hlater
    · have hnone : ¬ (c ≠ 0 ∧ strchr whitespace c ≠ none) := by
        rw [ne_eq (strchr whitespace c), strchr_whitespace]
        simp [hspace]
      rw [if_neg hnone, List.takeWhile_cons_of_neg hspace, List.dropWhile_cons_of_neg hspace,
        List.append_nil]

theorem scan_run (hrest : ∀ c ∈ rest, c ≠ 0) (pre : List UInt8) :
    scan (during pre rest) pre.length =
      .ok (pre ++ rest.takeWhile (fun c => !isSpace c)).length := by
  induction rest generalizing pre with
  | nil =>
    rw [scan, dif_pos (during_lt pre []), during_getElem]
    simp
  | cons c rest ih =>
    have hc := hrest c List.mem_cons_self
    rw [scan, dif_pos (during_lt pre _), during_getElem, List.headD_cons]
    by_cases hspace : isSpace c = true
    · have hfound : ¬ (c ≠ 0 ∧ strchr whitespace c = none) := by
        rw [strchr_whitespace]
        simp [hspace]
      rw [if_neg hfound, List.takeWhile_cons_of_neg (by simp [hspace]), List.append_nil]
    · have hword : isSpace c = false := Bool.eq_false_iff.mpr hspace
      have hnone : c ≠ 0 ∧ strchr whitespace c = none := ⟨hc, (strchr_whitespace c).mpr hword⟩
      have hlater := ih (fun d hd => hrest d (List.mem_cons_of_mem c hd)) (pre ++ [c])
      rw [if_pos hnone, during_pass hword, List.takeWhile_cons_of_pos (by simp [hword])]
      have hlength : (pre ++ [c]).length = pre.length + 1 := List.length_append
      rw [List.append_assoc, List.singleton_append, hlength] at hlater
      exact hlater

theorem map_blank (hword : ∀ c ∈ word, isSpace c = false) : word.map blank = word := by
  have hblank : ∀ c ∈ word, blank c = id c := by
    intro c hc
    unfold blank
    simp [hword c hc]
  rw [List.map_congr_left hblank, List.map_id]

theorem during_word (hword : ∀ c ∈ word, isSpace c = false) (pre rest : List UInt8) :
    during pre (word ++ rest) = during (pre ++ word) rest := by
  have hsame := map_blank hword
  unfold during
  rw [List.map_append, hsame]
  simp

theorem load_during (pre rest : List UInt8) :
    load (during pre rest) pre.length = .ok (rest.headD 0) := by
  unfold load
  rw [during_get]

/-- What a round of the loop does, once the blanks are gone. -/
theorem parse_gobbled (hrest : ∀ c ∈ rest, c ≠ 0) (pre : List UInt8) (argc : Nat) (argv : Argv) :
    parse (during pre rest) pre.length argc argv =
      let before := pre ++ rest.takeWhile isSpace
      let left := rest.dropWhile isSpace
      if left.headD 0 = 0 then .ok (.args (during before left) argc argv)
      else if argc = maxArgs - 1 then .ok (.tooMany (during before left))
      else if argc < maxArgs then do
        let argv ← setArgv argc (some before.length) argv
        let buf ← scan (during before left) before.length
        parse (during before left) buf (argc + 1) argv
      else .error .outside := by
  rw [parse, gobble_run hrest]
  dsimp only [bind, Except.bind]
  rw [load_during]
  rfl

theorem headD_eq_zero (hrest : ∀ c ∈ rest, c ≠ 0) : rest.headD 0 = 0 ↔ rest = [] := by
  cases rest with
  | nil => simp
  | cons c rest => simpa using hrest c List.mem_cons_self

theorem dropWhile_nonzero (hrest : ∀ c ∈ rest, c ≠ 0) (p : UInt8 → Bool) :
    ∀ c ∈ rest.dropWhile p, c ≠ 0 := fun c hc => hrest c ((List.dropWhile_sublist p).subset hc)

/-- At the end of the buffer. -/
theorem parse_end (hrest : ∀ c ∈ rest, c ≠ 0) (hleft : rest.dropWhile isSpace = [])
    (pre : List UInt8) (argc : Nat) (argv : Argv) :
    parse (during pre rest) pre.length argc argv =
      .ok (.args (during (pre ++ rest) []) argc argv) := by
  have hall := List.takeWhile_append_dropWhile (p := isSpace) (l := rest)
  rw [hleft, List.append_nil] at hall
  rw [parse_gobbled hrest]
  dsimp only
  rw [hleft, hall]
  rfl

theorem parse_full (hrest : ∀ c ∈ rest, c ≠ 0) (hleft : rest.dropWhile isSpace ≠ [])
    (pre : List UInt8) (argv : Argv) :
    parse (during pre rest) pre.length (maxArgs - 1) argv =
      .ok (.tooMany (during (pre ++ rest.takeWhile isSpace) (rest.dropWhile isSpace))) := by
  have hmore := mt (headD_eq_zero (dropWhile_nonzero hrest isSpace)).mp hleft
  rw [parse_gobbled hrest]
  dsimp only
  rw [if_neg hmore, if_pos rfl]

theorem parse_word (hrest : ∀ c ∈ rest, c ≠ 0) (hleft : rest.dropWhile isSpace ≠ [])
    (hargc : argc < maxArgs - 1) (pre : List UInt8) (argv : Argv) :
    let before := pre ++ rest.takeWhile isSpace
    let left := rest.dropWhile isSpace
    let word := left.takeWhile (fun c => !isSpace c)
    parse (during pre rest) pre.length argc argv =
      parse (during (before ++ word) (left.dropWhile (fun c => !isSpace c)))
        (before ++ word).length (argc + 1) (Function.update argv argc (some before.length)) := by
  intro before left word
  have hnonzero := dropWhile_nonzero hrest isSpace
  have hmore := mt (headD_eq_zero hnonzero).mp hleft
  have hroom : argc < maxArgs := hargc.trans (by decide)
  have hword : ∀ c ∈ word, isSpace c = false := fun c hc => by
    simpa using List.mem_takeWhile_imp hc
  have hsplit : left = word ++ left.dropWhile (fun c => !isSpace c) :=
    List.takeWhile_append_dropWhile.symm
  have hset : setArgv argc (some before.length) argv =
      .ok (Function.update argv argc (some before.length)) := if_pos hroom
  rw [parse_gobbled hrest]
  dsimp only
  rw [if_neg hmore, if_neg hargc.ne, if_pos hroom, hset, ← during_word hword, ← hsplit]
  change (scan (during before left) before.length >>= fun buf =>
    parse (during before left) buf _ _) = _
  rw [scan_run hnonzero]
  rfl

theorem words_eq_nil (h : Words.words isSpace rest = []) : rest.dropWhile isSpace = [] := by
  by_contra hleft
  rw [← Words.words_dropWhile, Words.words_takeWhile hleft (Words.head_dropWhile isSpace rest)] at h
  exact List.cons_ne_nil _ _ h

/-- The first word, and what the others are the words of. -/
theorem words_eq_cons {w : List UInt8} {ws : List (List UInt8)}
    (h : Words.words isSpace rest = w :: ws) :
    rest.dropWhile isSpace ≠ [] ∧
      w = (rest.dropWhile isSpace).takeWhile (fun c => !isSpace c) ∧
      Words.words isSpace ((rest.dropWhile isSpace).dropWhile (fun c => !isSpace c)) = ws := by
  rw [← Words.words_dropWhile] at h
  have hleft : rest.dropWhile isSpace ≠ [] := by
    intro hnil
    rw [hnil] at h
    exact List.cons_ne_nil _ _ h.symm
  rw [Words.words_takeWhile hleft (Words.head_dropWhile isSpace rest)] at h
  obtain ⟨hw, hws⟩ := List.cons.inj h
  exact ⟨hleft, hw.symm, hws⟩

/-- The word `t` stands at `p`, and a blank or the end of the string behind it. -/
def Located (bytes : List UInt8) (p : Nat) (t : List UInt8) : Prop :=
  ∃ before after, bytes = before ++ (t ++ after) ∧ before.length = p ∧
    (∀ c ∈ t, isSpace c = false) ∧ ∀ c ∈ after.head?, isSpace c = true

theorem split_word (pre rest : List UInt8) :
    pre ++ rest = pre ++ rest.takeWhile isSpace ++
      ((rest.dropWhile isSpace).takeWhile (fun c => !isSpace c) ++
        (rest.dropWhile isSpace).dropWhile (fun c => !isSpace c)) := by
  rw [List.takeWhile_append_dropWhile, List.append_assoc, List.takeWhile_append_dropWhile]

theorem parse_args {ws : List (List UInt8)} (hws : Words.words isSpace rest = ws)
    (hrest : ∀ c ∈ rest, c ≠ 0) (hargc : argc + ws.length ≤ maxArgs - 1) (pre : List UInt8)
    (argv : Argv) :
    ∃ argv', parse (during pre rest) pre.length argc argv =
        .ok (.args (during (pre ++ rest) []) (argc + ws.length) argv') ∧
      (∀ k < argc, argv' k = argv k) ∧
      ∀ j (hj : j < ws.length), ∃ p, argv' (argc + j) = some p ∧
        Located (pre ++ rest) p (ws.get ⟨j, hj⟩) := by
  induction ws generalizing pre rest argc argv with
  | nil =>
    refine ⟨argv, parse_end hrest (words_eq_nil hws) pre argc argv, fun _ _ => rfl, ?_⟩
    exact fun j hj => absurd hj (Nat.not_lt_zero j)
  | cons w ws ih =>
    obtain ⟨hleft, hw, hrestws⟩ := words_eq_cons hws
    rw [List.length_cons] at hargc
    have hsplit := split_word pre rest
    have hstop : ∀ c ∈ ((rest.dropWhile isSpace).dropWhile (fun c => !isSpace c)).head?,
        isSpace c = true := fun c hc => by
      simpa using Words.head_dropWhile (fun c => !isSpace c) (rest.dropWhile isSpace) c hc
    have hlt : argc < maxArgs - 1 := by omega
    have hround := parse_word hrest hleft hlt pre argv
    dsimp only at hround
    rw [← hw] at hsplit hround
    have hmore : argc + 1 + ws.length ≤ maxArgs - 1 := by omega
    obtain ⟨argv', hparse, hold, hnew⟩ := ih hrestws
      (dropWhile_nonzero (dropWhile_nonzero hrest isSpace) _) hmore
      (pre ++ rest.takeWhile isSpace ++ w)
      (Function.update argv argc (some (pre ++ rest.takeWhile isSpace).length))
    rw [List.append_assoc _ w, ← hsplit] at hparse hnew
    refine ⟨argv', ?_, ?_, ?_⟩
    · rw [hround, List.length_cons, Nat.add_comm ws.length, ← Nat.add_assoc]
      exact hparse
    · intro k hk
      rw [hold k (by omega)]
      exact Function.update_of_ne (by omega) _ _
    · intro j hj
      cases j with
      | zero =>
        refine ⟨_, (hold argc (by omega)).trans (Function.update_self _ _ _), ?_⟩
        refine ⟨_, _, hsplit, rfl, fun c hc => ?_, hstop⟩
        change c ∈ w at hc
        rw [hw] at hc
        simpa using List.mem_takeWhile_imp hc
      | succ j =>
        rw [List.length_cons] at hj
        obtain ⟨p, hp, hlocated⟩ := hnew j (by omega)
        refine ⟨p, ?_, hlocated⟩
        rw [← hp, Nat.add_assoc, Nat.add_comm 1]

theorem parse_tooMany {ws : List (List UInt8)} (hws : Words.words isSpace rest = ws)
    (hrest : ∀ c ∈ rest, c ≠ 0) (hargc : argc ≤ maxArgs - 1)
    (hmany : maxArgs - 1 < argc + ws.length) (pre : List UInt8) (argv : Argv) :
    ∃ done left, pre ++ rest = done ++ left ∧
      parse (during pre rest) pre.length argc argv = .ok (.tooMany (during done left)) := by
  induction ws generalizing pre rest argc argv with
  | nil =>
    rw [List.length_nil] at hmany
    omega
  | cons w ws ih =>
    obtain ⟨hleft, hw, hrestws⟩ := words_eq_cons hws
    rw [List.length_cons] at hmany
    rcases Nat.lt_or_eq_of_le hargc with hlt | rfl
    · have hsplit := split_word pre rest
      have hround := parse_word hrest hleft hlt pre argv
      dsimp only at hround
      rw [← hw] at hsplit hround
      obtain ⟨done, left, heq, hparse⟩ := ih hrestws
        (dropWhile_nonzero (dropWhile_nonzero hrest isSpace) _) hlt (by omega)
        (pre ++ rest.takeWhile isSpace ++ w)
        (Function.update argv argc (some (pre ++ rest.takeWhile isSpace).length))
      rw [List.append_assoc _ w, ← hsplit] at heq
      exact ⟨done, left, heq, hround.trans hparse⟩
    · refine ⟨pre ++ rest.takeWhile isSpace, rest.dropWhile isSpace, ?_,
        parse_full hrest hleft pre argv⟩
      rw [List.append_assoc, List.takeWhile_append_dropWhile]

end

/-- The string `t` stands at `p`. -/
def StandsAt (mem : List UInt8) (p : Nat) (t : List UInt8) : Prop :=
  ∃ before after, mem = before ++ (t ++ 0 :: after) ∧ before.length = p

/-- Only blanks were overwritten, with a NUL. -/
structure OnlyBlanks (mem mem' : List UInt8) : Prop where
  length : mem'.length = mem.length
  cells : ∀ i : Nat, mem'[i]? = mem[i]? ∨
    (∃ c, mem[i]? = some c ∧ isSpace c = true) ∧ mem'[i]? = some 0

/-- The command that the words of the buffer ask for: the first of the table with the name,
if there are not too many words. -/
def chosen : List (List UInt8) → Option Command
  | [] => none
  | w :: ws =>
    if (w :: ws).length ≤ maxArgs - 1 then commands.find? (fun c => c.name.bytes = w) else none

section

variable {mem other bytes t q : List UInt8} {p j : Nat}

theorem StandsAt.load (h : StandsAt mem p t) : load mem p = .ok (t.headD 0) := by
  obtain ⟨before, after, rfl, rfl⟩ := h
  unfold Runcmd.load
  rw [List.getElem?_append_right (le_refl _), Nat.sub_self]
  cases t <;> rfl

theorem StandsAt.tail {c : UInt8} (h : StandsAt mem p (c :: t)) : StandsAt mem (p + 1) t := by
  obtain ⟨before, after, rfl, rfl⟩ := h
  exact ⟨before ++ [c], after, by simp, by simp⟩

theorem Located.standsAt (h : Located bytes p t) : StandsAt (during bytes []) p t := by
  obtain ⟨before, after, rfl, rfl, hword, hend⟩ := h
  have hsame := map_blank hword
  unfold during
  rw [List.map_append, List.map_append, hsame]
  cases after with
  | nil => exact ⟨before.map blank, [], by simp, by simp⟩
  | cons c after =>
    have hblank : blank c = 0 := if_pos (hend c rfl)
    exact ⟨before.map blank, after.map blank ++ [0], by simp [hblank], by simp⟩

theorem stringAt_ok (h : StandsAt mem p t) : ∃ s, stringAt mem p = .ok s := by
  obtain ⟨before, after, rfl, rfl⟩ := h
  have hzero : 0 ∈ (before ++ (t ++ 0 :: after)).drop before.length := by
    rw [List.drop_left]
    simp
  exact ⟨_, if_pos hzero⟩

theorem diff_eq_zero (c d : UInt8) : Strings.diff c d = 0 ↔ c = d := by
  unfold Strings.diff
  rw [Int32.sub_eq_iff_eq_add, Int32.zero_add]
  constructor
  · intro h
    exact UInt8.toUInt32_inj.mp (by simpa [ucharToInt] using congrArg Int32.toUInt32 h)
  · rintro rfl
    rfl

theorem strcmpBy_load (h : StandsAt mem p t) (hother : StandsAt other j q) (fuel : Nat) :
    Strings.strcmpBy (load mem) (load other) (fuel + 1) p j =
      if t.headD 0 ≠ 0 ∧ t.headD 0 = q.headD 0 then
        Strings.strcmpBy (load mem) (load other) fuel (p + 1) (j + 1)
      else .ok (Strings.diff (t.headD 0) (q.headD 0)) := by
  rw [Strings.strcmpBy, h.load, hother.load]
  rfl

/-- Equal characters are passed in both strings together. -/
theorem strcmpBy_run (h : StandsAt mem p t) (hother : StandsAt other j q)
    (hq : ∀ c ∈ q, c ≠ 0) (ht : ∀ c ∈ t, c ≠ 0) :
    ∃ r, Strings.strcmpBy (load mem) (load other) (q.length + 1) p j = .ok r ∧
      (r = 0 ↔ q = t) := by
  induction q generalizing p j t with
  | nil =>
    refine ⟨Strings.diff (t.headD 0) 0, ?_, ?_⟩
    · rw [strcmpBy_load h hother]
      exact if_neg (fun hsame => hsame.1 hsame.2)
    · rw [diff_eq_zero, headD_eq_zero ht]
      exact eq_comm
  | cons d q ih =>
    have hd := hq d List.mem_cons_self
    by_cases hsame : t.headD 0 ≠ 0 ∧ t.headD 0 = d
    · cases t with
      | nil => exact absurd rfl hsame.1
      | cons c t =>
        obtain rfl : c = d := hsame.2
        obtain ⟨r, hr, hiff⟩ := ih h.tail hother.tail
          (fun e he => hq e (List.mem_cons_of_mem c he))
          (fun e he => ht e (List.mem_cons_of_mem c he))
        refine ⟨r, ?_, ?_⟩
        · rw [strcmpBy_load h hother]
          exact (if_pos hsame).trans hr
        · rw [hiff, List.cons_inj_right]
    · refine ⟨Strings.diff (t.headD 0) d, ?_, ?_⟩
      · rw [strcmpBy_load h hother]
        exact if_neg hsame
      · rw [diff_eq_zero]
        constructor
        · intro heq
          exact absurd ⟨heq ▸ hd, heq⟩ hsame
        · rintro rfl
          rfl

theorem strcmp_run (h : StandsAt mem p t) (name : CString) (ht : ∀ c ∈ t, c ≠ 0) :
    ∃ r, strcmp mem p name = .ok r ∧ (r = 0 ↔ name.bytes = t) :=
  strcmpBy_run h ⟨[], [], rfl, rfl⟩ name.nonzero ht

theorem cprintf_ok (fmt : CString) (args : Args) (console : Console) :
    ∃ result, cprintf fmt args console = .ok result := by
  obtain ⟨out, hout, -⟩ := formatted_silent fmt args
  exact ⟨_, vcprintf_run hout console⟩

/-- What the lookup in a part of the table leads to. -/
structure Invoked (func : Handler → Invocation → Console → Int32 × Console) (call : Invocation)
    (s : Monitor) (found : Option Command) (result : Int32) (s' : Monitor) : Prop where
  mem : s'.mem = s.mem
  some : ∀ command, found = some command →
    s'.calls = s.calls ++ [(command.func, call)] ∧
      result = (func command.func call s.console).1
  none : found = none → s'.calls = s.calls ∧ result = 0

theorem invoke_run (func : Handler → Invocation → Console → Int32 × Console) (argc : Nat)
    (argv : Argv) (tf : UInt32) {argv₀ : Nat} {s : Monitor} (h : StandsAt s.mem argv₀ t)
    (ht : ∀ c ∈ t, c ≠ 0) (table : List Command) :
    ∃ result s', invoke func argc argv tf argv₀ s table = .ok (result, s') ∧
      Invoked func ⟨argc, argv, s.mem, tf⟩ s
        (table.find? (fun c => c.name.bytes = t)) result s' := by
  induction table with
  | nil =>
    obtain ⟨name, hname⟩ := stringAt_ok h
    obtain ⟨⟨r, console⟩, hprint⟩ :=
      cprintf_ok (.lit "Unknown command '%s'\n") (fun _ => stringArg name) s.console
    refine ⟨0, { s with console := console }, ?_, rfl, ?_, fun _ => ⟨rfl, rfl⟩⟩
    · rw [invoke, hname]
      change (cprintf _ _ s.console >>= _) = _
      rw [hprint]
      rfl
    · rintro command hfound
      cases hfound
  | cons command table ih =>
    obtain ⟨order, horder, hiff⟩ := strcmp_run h command.name ht
    by_cases hsame : command.name.bytes = t
    · refine ⟨(func command.func ⟨argc, argv, s.mem, tf⟩ s.console).1,
        { s with console := (func command.func ⟨argc, argv, s.mem, tf⟩ s.console).2,
                 calls := s.calls ++ [(command.func, ⟨argc, argv, s.mem, tf⟩)] }, ?_, rfl, ?_, ?_⟩
      · rw [invoke, horder]
        exact if_pos (hiff.mpr hsame)
      · intro found hfound
        rw [List.find?_cons_of_pos (by simpa using hsame)] at hfound
        obtain rfl := Option.some.inj hfound
        exact ⟨rfl, rfl⟩
      · intro hnone
        rw [List.find?_cons_of_pos (by simpa using hsame)] at hnone
        cases hnone
    · obtain ⟨result, s', hrun, hinvoked⟩ := ih
      rw [List.find?_cons_of_neg (by simpa using hsame)]
      refine ⟨result, s', ?_, hinvoked⟩
      rw [invoke, horder]
      exact (if_neg (mt hiff.mp hsame)).trans hrun

theorem onlyBlanks_during (done left : List UInt8) :
    OnlyBlanks (done ++ left ++ [0]) (during done left) := by
  unfold during
  constructor
  · simp
  · intro i
    rw [List.append_assoc]
    by_cases hi : i < done.length
    · rw [List.getElem?_append_left (by simpa using hi), List.getElem?_append_left hi,
        List.getElem?_map, List.getElem?_eq_getElem hi, Option.map_some]
      unfold blank
      split
      · next hspace => exact .inr ⟨⟨_, rfl, hspace⟩, rfl⟩
      · exact .inl rfl
    · have hnew : (done.map blank ++ (left ++ [0]))[i]? = (left ++ [0])[i - done.length]? := by
        rw [List.getElem?_append_right (by simpa using hi), List.length_map]
      have hold : (done ++ (left ++ [0]))[i]? = (left ++ [0])[i - done.length]? :=
        List.getElem?_append_right (by omega)
      exact .inl (hnew.trans hold.symm)

theorem words_nonzero (hbytes : ∀ c ∈ bytes, c ≠ 0) {w : List UInt8}
    (hw : Located bytes p w) : ∀ c ∈ w, c ≠ 0 := by
  obtain ⟨before, after, rfl, -⟩ := hw
  intro c hc
  exact hbytes c (by simp [hc])

section

variable {ws : List (List UInt8)} {s : CString} (hws : Words.words isSpace s.bytes = ws)
  (func : Handler → Invocation → Console → Int32 × Console) (argv : Argv) (tf : UInt32)
  (console : Console)

include hws

theorem runcmd_tooMany (hmany : maxArgs - 1 < ws.length) :
    ∃ m, runcmd func argv tf ⟨s.bytes ++ [0], console, []⟩ = .ok (0, m) ∧
      OnlyBlanks (s.bytes ++ [0]) m.mem ∧ m.calls = [] := by
  have hset : setArgv 0 none argv = .ok (Function.update argv 0 none) := if_pos (by decide)
  have hlong : maxArgs - 1 < 0 + ws.length := by omega
  obtain ⟨done, left, hsplit, hparse⟩ := parse_tooMany hws s.nonzero (Nat.zero_le _) hlong []
    (Function.update argv 0 none)
  obtain ⟨⟨r, printed⟩, hprint⟩ := cprintf_ok (.lit "Too many arguments (max %d)\n")
    (fun _ => ⟨UInt32.ofNat maxArgs, .lit ""⟩) console
  rw [List.nil_append] at hsplit
  refine ⟨⟨during done left, printed, []⟩, ?_, hsplit ▸ onlyBlanks_during done left, rfl⟩
  unfold runcmd
  rw [hset]
  change (parse (during [] s.bytes) ([] : List UInt8).length 0 _ >>= _) = _
  rw [hparse]
  change (cprintf _ _ console >>= _) = _
  rw [hprint]
  rfl

/-- The lookup gets the words as `argv`, with `NULL` behind them. -/
theorem runcmd_args (hfew : ws.length ≤ maxArgs - 1) :
    ∃ argv', argv' ws.length = none ∧
      (∀ k (hk : k < ws.length), ∃ p, argv' k = some p ∧
        Located s.bytes p (ws.get ⟨k, hk⟩)) ∧
      runcmd func argv tf ⟨s.bytes ++ [0], console, []⟩ =
        if ws.length = 0 then .ok (0, ⟨during s.bytes [], console, []⟩)
        else match argv' 0 with
          | none => .error .outside
          | some argv₀ =>
            invoke func ws.length argv' tf argv₀ ⟨during s.bytes [], console, []⟩ commands := by
  have hset : setArgv 0 none argv = .ok (Function.update argv 0 none) := if_pos (by decide)
  have hshort : 0 + ws.length ≤ maxArgs - 1 := by omega
  obtain ⟨filled, hparse, -, hlocated⟩ := parse_args hws s.nonzero hshort []
    (Function.update argv 0 none)
  rw [List.nil_append, Nat.zero_add] at hparse
  have hend : setArgv ws.length none filled = .ok (Function.update filled ws.length none) :=
    if_pos (hfew.trans_lt (by decide))
  refine ⟨Function.update filled ws.length none, Function.update_self _ _ _, ?_, ?_⟩
  · intro k hk
    obtain ⟨p, hp, hword⟩ := hlocated k hk
    rw [Nat.zero_add] at hp
    exact ⟨p, (Function.update_of_ne hk.ne _ _).trans hp, hword⟩
  · unfold runcmd
    rw [hset]
    change (parse (during [] s.bytes) ([] : List UInt8).length 0 _ >>= _) = _
    rw [hparse]
    change (setArgv _ _ _ >>= _) = _
    rw [hend]
    rfl

end

/-- `runcmd` cuts the buffer into its words, overwrites nothing but blanks, and calls the
handler of the command that the words ask for, with the words as its arguments. If they ask
for none it calls nothing and returns 0. -/
theorem runcmd_words (func : Handler → Invocation → Console → Int32 × Console) (argv : Argv)
    (tf : UInt32) (s : CString) (console : Console) :
    ∃ result m, runcmd func argv tf ⟨s.bytes ++ [0], console, []⟩ = .ok (result, m) ∧
      OnlyBlanks (s.bytes ++ [0]) m.mem ∧
      match chosen (Words.words isSpace s.bytes) with
      | none => m.calls = [] ∧ result = 0
      | some command => ∃ call, m.calls = [(command.func, call)] ∧
          result = (func command.func call console).1 ∧ call.mem = m.mem ∧ call.tf = tf ∧
          call.argc = (Words.words isSpace s.bytes).length ∧ call.argv call.argc = none ∧
          ∀ k (hk : k < (Words.words isSpace s.bytes).length), ∃ p, call.argv k = some p ∧
            StandsAt call.mem p ((Words.words isSpace s.bytes).get ⟨k, hk⟩) := by
  generalize hws : Words.words isSpace s.bytes = ws
  rcases Nat.lt_or_ge (maxArgs - 1) ws.length with hmany | hfew
  · obtain ⟨m, hrun, hblanks, hcalls⟩ := runcmd_tooMany hws func argv tf console hmany
    have hchosen : chosen ws = none := by
      cases ws with
      | nil => rfl
      | cons w ws => exact if_neg (by omega)
    rw [hchosen]
    exact ⟨0, m, hrun, hblanks, hcalls, rfl⟩
  · obtain ⟨argv', hnull, hwords, hrun⟩ := runcmd_args hws func argv tf console hfew
    have hblanks := onlyBlanks_during s.bytes []
    rw [List.append_nil] at hblanks
    cases ws with
    | nil => exact ⟨0, _, hrun, hblanks, rfl, rfl⟩
    | cons w ws =>
      obtain ⟨argv₀, hfirst, hlocated⟩ := hwords 0 (Nat.zero_lt_succ _)
      obtain ⟨result, m, hinvoke, hinvoked⟩ := invoke_run func (w :: ws).length argv' tf
        (s := ⟨during s.bytes [], console, []⟩) hlocated.standsAt
        (words_nonzero s.nonzero hlocated) commands
      have hchosen : chosen (w :: ws) = commands.find? (fun c => c.name.bytes = w) := if_pos hfew
      have hlength : (w :: ws).length ≠ 0 := Nat.succ_ne_zero _
      rw [if_neg hlength, hfirst] at hrun
      refine ⟨result, m, hrun.trans hinvoke, ?_, ?_⟩
      · rw [hinvoked.mem]
        exact hblanks
      rw [hchosen]
      cases hfound : commands.find? (fun c => c.name.bytes = w) with
      | none => exact hinvoked.none hfound
      | some command =>
        obtain ⟨hcalls, hresult⟩ := hinvoked.some command hfound
        refine ⟨_, hcalls, hresult, hinvoked.mem.symm, rfl, rfl, hnull, fun k hk => ?_⟩
        obtain ⟨p, hp, hword⟩ := hwords k hk
        exact ⟨p, hp, hword.standsAt⟩

end

end Jos.Runcmd
