import Jos.Printf

/-!
Reading a line with editing, from `lib/readline.c`. Of `getchar` only its results are
known, in their order. A store outside of the static buffer is an error.
-/

namespace Jos

def bufLen : Int := 1024

/-- `readline` at work: the static `buf`, the index `i`, the console, and the characters
that were passed to `cputchar`, oldest first. -/
structure Readline where
  buf : Int → UInt8
  i : Int
  console : Console
  echoed : List Int32

/-- What one character leads to. -/
inductive ReadRound where
  | more (s : Readline)
  | line (s : Readline)
  | null (s : Readline)

/-- Whether a file descriptor is the console. -/
def iscons (_fdnum : Int32) : Int32 := 1

namespace Readline

def cputchar (c : Int32) (s : Readline) : Readline :=
  { s with console := s.console.cputchar c.toUInt32, echoed := s.echoed ++ [c] }

/-- `if (echoing) cputchar(c);` -/
def echo (echoing c : Int32) (s : Readline) : Readline :=
  if echoing ≠ 0 then s.cputchar c else s

/-- `buf[k] = c` -/
def store (k : Int) (c : UInt8) (s : Readline) : Except Fault Readline :=
  if 0 ≤ k ∧ k < bufLen then .ok { s with buf := Function.update s.buf k c }
  else .error .outside

/-- The body of the loop, once `getchar` has returned `c`. -/
def round (echoing c : Int32) (s : Readline) : Except Fault ReadRound :=
  if c < 0 then do
    let (_, console) ← cprintf (.lit "read error: %e\n") (fun _ => ⟨c.toUInt32, .lit ""⟩) s.console
    return .null { s with console := console }
  else if (c = 0x08 ∨ c = 0x7F) ∧ 0 < s.i then
    let s := s.echo echoing 0x08
    return .more { s with i := s.i - 1 }
  else if 0x20 ≤ c ∧ s.i < bufLen - 1 then do
    let s := s.echo echoing c
    let s ← s.store s.i c.toUInt32.toUInt8
    return .more { s with i := s.i + 1 }
  else if c = 0x0A ∨ c = 0x0D then do
    let s := s.echo echoing 0x0A
    let s ← s.store s.i 0
    return .line s
  else return .more s

/-- The loop, with what is left to read when it ends. It still waits for a character when
nothing is left. -/
def loop (echoing : Int32) : List Int32 → Readline → Except Fault (ReadRound × List Int32)
  | [], s => .ok (.more s, [])
  | c :: cs, s => do
    match ← s.round echoing c with
    | .more s => loop echoing cs s
    | r => return (r, cs)

end Readline

/-- `if (prompt != NULL) cprintf("%s", prompt);` -/
def showPrompt (prompt : Option CString) (console : Console) : Except Fault Console :=
  match prompt with
  | none => .ok console
  | some prompt => do
    let (_, console) ← cprintf (.lit "%s") (fun _ => stringArg prompt) console
    return console

/-- `readline(prompt)` with the static buffer `buf`, where `input` is what `getchar` will
return. -/
def readline (prompt : Option CString) (buf : Int → UInt8) (input : List Int32)
    (console : Console) : Except Fault (ReadRound × List Int32) := do
  let console ← showPrompt prompt console
  Readline.loop (iscons 0) input ⟨buf, 0, console, []⟩

/-- A line of at most `BUFLEN - 1` characters is edited character by character. A rule gives
the line after one more character, and what is echoed. -/
abbrev EditRule := List Int32 → Int32 → List Int32 × List Int32

def EditRule.run (rule : EditRule) : List Int32 → List Int32 → List Int32 × List Int32
  | line, [] => (line, [])
  | line, c :: cs =>
    let (line, shown) := rule line c
    let (line, rest) := rule.run line cs
    (line, shown ++ rest)

def typeChar : EditRule := fun line c =>
  if 0x20 ≤ c ∧ (line.length : Int) < bufLen - 1 then (line ++ [c], [c]) else (line, [])

/-- Backspace and DEL remove the last character, if there is one. -/
def plainEdit : EditRule := fun line c =>
  if c = 0x08 ∨ c = 0x7F then
    if line = [] then ([], []) else (line.dropLast, [0x08])
  else typeChar line c

/-- The rule of `readline`: where there is nothing to remove the next test applies. -/
def chainEdit : EditRule := fun line c =>
  if (c = 0x08 ∨ c = 0x7F) ∧ line ≠ [] then (line.dropLast, [0x08]) else typeChar line c

/-- Every DEL finds a character to remove, when `line` has been typed already. -/
def DelFindsText (line cs : List Int32) : Prop :=
  ∀ before after, cs = before ++ 0x7F :: after → (plainEdit.run line before).1 ≠ []

def LineEnd (c : Int32) : Prop := c = 0x0A ∨ c = 0x0D

instance (c : Int32) : Decidable (LineEnd c) :=
  inferInstanceAs (Decidable (c = 0x0A ∨ c = 0x0D))

/-- The characters before the first end of a line. -/
def typed (input : List Int32) : List Int32 := input.takeWhile (fun c => ¬ LineEnd c)

/-- The buffer holds the characters of a line, and a NUL behind them. -/
structure HoldsLine (buf : Int → UInt8) (line : List Int32) : Prop where
  chars : ∀ k (hk : k < line.length), buf k = (line.get ⟨k, hk⟩).toUInt32.toUInt8
  nul : buf line.length = 0

/-- `readline` takes the characters up to the end of the line, edits them by a rule into
the buffer it returns, and echoes what the rule says and a newline. All the while its index
is in the buffer. -/
def Edits (rule : EditRule) (prompt : Option CString) (buf : Int → UInt8) (input : List Int32)
    (console : Console) : Prop :=
  ∃ start s, showPrompt prompt console = .ok start ∧
    readline prompt buf input console =
      .ok (.line s, (input.dropWhile (fun c => ¬ LineEnd c)).tail) ∧
    HoldsLine s.buf (rule.run [] (typed input)).1 ∧
    s.echoed = (rule.run [] (typed input)).2 ++ [0x0A] ∧
    s.console = start.cputchars (s.echoed.map Int32.toUInt32) ∧
    ∀ before, before <+: typed input → ∃ t,
      readline prompt buf before console = .ok (.more t, []) ∧ 0 ≤ t.i ∧ t.i ≤ bufLen - 1

section

variable {line cs : List Int32} {c : Int32}

theorem EditRule.run_cons (rule : EditRule) (line : List Int32) (c : Int32) (cs : List Int32) :
    rule.run line (c :: cs) =
      ((rule.run (rule line c).1 cs).1, (rule line c).2 ++ (rule.run (rule line c).1 cs).2) := rfl

theorem del_not_shown (line cs : List Int32) : 0x7F ∉ (plainEdit.run line cs).2 := by
  induction cs generalizing line with
  | nil => exact List.not_mem_nil
  | cons c cs ih =>
    rw [EditRule.run_cons, List.mem_append, not_or]
    refine ⟨?_, ih _⟩
    unfold plainEdit
    split
    · split
      · exact List.not_mem_nil
      · simp
    · next hc =>
      unfold typeChar
      split
      · rw [List.mem_singleton]
        exact fun heq => hc (.inr heq.symm)
      · exact List.not_mem_nil

/-- The two rules differ for a DEL at the start of the line. -/
theorem chainEdit_eq (h : c = 0x7F → line ≠ []) : chainEdit line c = plainEdit line c := by
  unfold chainEdit plainEdit
  by_cases hc : c = 0x08 ∨ c = 0x7F
  · rw [if_pos hc]
    by_cases hline : line = []
    · subst hline
      obtain rfl : c = 0x08 := hc.resolve_right fun hdel => h hdel rfl
      rfl
    · rw [if_pos ⟨hc, hline⟩, if_neg hline]
  · rw [if_neg hc, if_neg fun hboth => hc hboth.1]

theorem delFindsText_cons :
    DelFindsText line (c :: cs) ↔
      (c = 0x7F → line ≠ []) ∧ DelFindsText (plainEdit line c).1 cs := by
  constructor
  · intro h
    constructor
    · rintro rfl
      exact h [] cs rfl
    · rintro before after rfl
      exact h (c :: before) after rfl
  · rintro ⟨hfirst, hrest⟩ before after heq
    cases before with
    | nil =>
      obtain ⟨rfl, rfl⟩ := List.cons.inj heq
      exact hfirst rfl
    | cons d before =>
      obtain ⟨rfl, rfl⟩ := List.cons.inj heq
      exact hrest before after rfl

theorem chainEdit_run (h : DelFindsText line cs) :
    chainEdit.run line cs = plainEdit.run line cs := by
  induction cs generalizing line with
  | nil => rfl
  | cons c cs ih =>
    obtain ⟨hfirst, hrest⟩ := delFindsText_cons.mp h
    rw [EditRule.run_cons, EditRule.run_cons, chainEdit_eq hfirst, ih hrest]

/-- What the rule of `readline` echoes tells whether a DEL was taken for a character. -/
theorem delFindsText_of_shown (h : (chainEdit.run line cs).2 = (plainEdit.run line cs).2) :
    DelFindsText line cs := by
  induction cs generalizing line with
  | nil =>
    intro before after heq
    simp at heq
  | cons c cs ih =>
    have hfirst : c = 0x7F → line ≠ [] := by
      rintro rfl rfl
      have hnot := del_not_shown [] (0x7F :: cs)
      rw [← h, EditRule.run_cons] at hnot
      exact hnot (List.mem_append_left _ (by decide))
    rw [EditRule.run_cons, EditRule.run_cons, chainEdit_eq hfirst] at h
    exact delFindsText_cons.mpr ⟨hfirst, ih (List.append_cancel_left h)⟩

end

namespace Readline

/-- `line` has been typed since the console was `start`, and `shown` was echoed. -/
structure Editing (line : List Int32) (start : Console) (shown : List Int32) (s : Readline) :
    Prop where
  index : s.i = line.length
  room : (line.length : Int) ≤ bufLen - 1
  chars : ∀ k (hk : k < line.length), s.buf k = (line.get ⟨k, hk⟩).toUInt32.toUInt8
  echoed : s.echoed = shown
  console : s.console = start.cputchars (shown.map Int32.toUInt32)

variable {line shown cs : List Int32} {start : Console} {s : Readline} {c : Int32}

theorem cputchars_snoc (start : Console) (shown : List Int32) (c : Int32) :
    start.cputchars ((shown ++ [c]).map Int32.toUInt32) =
      (start.cputchars (shown.map Int32.toUInt32)).cputchar c.toUInt32 := by
  unfold Console.cputchars
  rw [List.map_append, List.foldl_append]
  rfl

theorem store_inside (c : UInt8) (s : Readline) (hlo : 0 ≤ s.i) (hhi : s.i < bufLen) :
    s.store s.i c = .ok { s with buf := Function.update s.buf s.i c } := if_pos ⟨hlo, hhi⟩

theorem round_append (hneg : ¬ c < 0) (hback : ¬ ((c = 0x08 ∨ c = 0x7F) ∧ 0 < s.i))
    (hlo : 0 ≤ s.i) (htype : 0x20 ≤ c ∧ s.i < bufLen - 1) :
    s.round (iscons 0) c = .ok (.more { s.cputchar c with
      buf := Function.update s.buf s.i c.toUInt32.toUInt8, i := s.i + 1 }) := by
  have hstore := store_inside c.toUInt32.toUInt8 (s.cputchar c) hlo
    (Int.lt_trans htype.2 (by decide))
  unfold round
  rw [if_neg hneg, if_neg hback, if_pos htype]
  exact (congrArg (· >>= _) hstore).trans rfl

theorem round_return (hend : LineEnd c) (hlo : 0 ≤ s.i) (hhi : s.i < bufLen) :
    s.round (iscons 0) c = .ok (.line { s.cputchar 0x0A with
      buf := Function.update s.buf s.i 0 }) := by
  have hneg : ¬ c < 0 := by
    rcases hend with rfl | rfl <;> decide
  have hback : ¬ ((c = 0x08 ∨ c = 0x7F) ∧ 0 < s.i) := by
    rcases hend with rfl | rfl <;> rintro ⟨hc, -⟩ <;> revert hc <;> decide
  have htype : ¬ (0x20 ≤ c ∧ s.i < bufLen - 1) := by
    rcases hend with rfl | rfl <;> rintro ⟨hc, -⟩ <;> revert hc <;> decide
  have hreturn : c = 0x0A ∨ c = 0x0D := hend
  have hstore := store_inside 0 (s.cputchar 0x0A) hlo hhi
  unfold round
  rw [if_neg hneg, if_neg hback, if_neg htype, if_pos hreturn]
  exact (congrArg (· >>= _) hstore).trans rfl

theorem Editing.round_backspace (h : Editing line start shown s) (hc : c = 0x08 ∨ c = 0x7F)
    (hline : line ≠ []) :
    ∃ s', s.round (iscons 0) c = .ok (.more s') ∧
      Editing line.dropLast start (shown ++ [0x08]) s' := by
  have hpos : 0 < s.i := by
    have hlen := List.length_pos_iff.mpr hline
    rw [h.index]
    omega
  have hnonneg : ¬ c < 0 := by
    rcases hc with rfl | rfl <;> decide
  refine ⟨{ s.cputchar 0x08 with i := s.i - 1 }, ?_, ?_, ?_, ?_, ?_, ?_⟩
  · unfold round
    rw [if_neg hnonneg, if_pos ⟨hc, hpos⟩]
    rfl
  · have hlen := List.length_pos_iff.mpr hline
    change s.i - 1 = _
    rw [h.index, List.length_dropLast]
    omega
  · have hroom := h.room
    rw [List.length_dropLast]
    omega
  · intro k hk
    have hlt : k < line.length := by
      rw [List.length_dropLast] at hk
      omega
    have hget := h.chars k hlt
    rw [List.get_eq_getElem] at hget ⊢
    rw [List.getElem_dropLast]
    exact hget
  · exact congrArg (· ++ [0x08]) h.echoed
  · rw [cputchars_snoc, ← h.console]
    rfl

theorem Editing.round_typed (h : Editing line start shown s) (hnonneg : 0 ≤ c)
    (hback : ¬ ((c = 0x08 ∨ c = 0x7F) ∧ line ≠ [])) (hend : ¬ LineEnd c) :
    ∃ s', s.round (iscons 0) c = .ok (.more s') ∧
      Editing (typeChar line c).1 start (shown ++ (typeChar line c).2) s' := by
  have hneg : ¬ c < 0 := Int32.not_lt.mpr hnonneg
  have hremove : ¬ ((c = 0x08 ∨ c = 0x7F) ∧ 0 < s.i) := by
    rintro ⟨hc, hpos⟩
    refine hback ⟨hc, ?_⟩
    rintro rfl
    rw [h.index] at hpos
    exact absurd hpos (by simp)
  unfold typeChar
  by_cases htype : 0x20 ≤ c ∧ (line.length : Int) < bufLen - 1
  · rw [if_pos htype]
    rw [← h.index] at htype
    have hindex := h.index
    refine ⟨_, round_append hneg hremove (by omega) htype, ?_, ?_, ?_, ?_, ?_⟩
    · change s.i + 1 = _
      rw [List.length_append, List.length_singleton]
      omega
    · rw [List.length_append, List.length_singleton]
      omega
    · intro k hk
      rw [List.length_append, List.length_singleton] at hk
      change Function.update s.buf s.i c.toUInt32.toUInt8 k = _
      by_cases hlast : k = line.length
      · subst hlast
        rw [hindex, Function.update_self]
        simp
      · have hlt : k < line.length := by omega
        have hne : (k : Int) ≠ s.i := by omega
        rw [Function.update_of_ne hne, h.chars k hlt]
        simp [List.getElem_append_left hlt]
    · exact congrArg (· ++ [c]) h.echoed
    · rw [cputchars_snoc, ← h.console]
      rfl
  · have hreturn : ¬ (c = 0x0A ∨ c = 0x0D) := hend
    rw [if_neg htype]
    rw [← h.index] at htype
    refine ⟨s, ?_, h.index, h.room, h.chars, ?_, ?_⟩
    · unfold Readline.round
      rw [if_neg hneg, if_neg hremove, if_neg htype, if_neg hreturn]
      rfl
    · rw [List.append_nil, h.echoed]
    · rw [List.append_nil, h.console]

/-- One character edits the line by the rule of `readline`. -/
theorem Editing.round (h : Editing line start shown s) (hnonneg : 0 ≤ c) (hend : ¬ LineEnd c) :
    ∃ s', s.round (iscons 0) c = .ok (.more s') ∧
      Editing (chainEdit line c).1 start (shown ++ (chainEdit line c).2) s' := by
  unfold chainEdit
  by_cases hback : (c = 0x08 ∨ c = 0x7F) ∧ line ≠ []
  · rw [if_pos hback]
    exact h.round_backspace hback.1 hback.2
  · rw [if_neg hback]
    exact h.round_typed hnonneg hback hend

theorem Editing.loop (h : Editing line start shown s) (hnonneg : ∀ c ∈ cs, 0 ≤ c)
    (hend : ∀ c ∈ cs, ¬ LineEnd c) (rest : List Int32) :
    ∃ s', loop (iscons 0) (cs ++ rest) s = loop (iscons 0) rest s' ∧
      Editing (chainEdit.run line cs).1 start (shown ++ (chainEdit.run line cs).2) s' := by
  induction cs generalizing line shown s with
  | nil => exact ⟨s, rfl, by rwa [EditRule.run, List.append_nil]⟩
  | cons c cs ih =>
    obtain ⟨s₁, hround, hnext⟩ := h.round (hnonneg c List.mem_cons_self) (hend c List.mem_cons_self)
    obtain ⟨s', hloop, hlast⟩ := ih hnext (fun d hd => hnonneg d (List.mem_cons_of_mem c hd))
      (fun d hd => hend d (List.mem_cons_of_mem c hd))
    refine ⟨s', ?_, ?_⟩
    · rw [List.cons_append, Readline.loop, hround]
      exact hloop
    · rw [EditRule.run_cons, ← List.append_assoc]
      exact hlast

/-- The end of the line is echoed as a newline, and stored as a NUL. -/
theorem Editing.round_end (h : Editing line start shown s) (hend : LineEnd c) :
    ∃ s', s.round (iscons 0) c = .ok (.line s') ∧ HoldsLine s'.buf line ∧
      s'.echoed = shown ++ [0x0A] ∧
      s'.console = start.cputchars ((shown ++ [0x0A]).map Int32.toUInt32) := by
  have hroom := h.room
  have hindex := h.index
  have hlast : bufLen - 1 < bufLen := by decide
  refine ⟨_, round_return hend (by omega) (by omega), ⟨?_, ?_⟩, ?_, ?_⟩
  · intro k hk
    have hne : (k : Int) ≠ s.i := by omega
    change Function.update s.buf s.i 0 k = _
    rw [Function.update_of_ne hne]
    exact h.chars k hk
  · change Function.update s.buf s.i 0 line.length = 0
    rw [← hindex, Function.update_self]
  · exact congrArg (· ++ [0x0A]) h.echoed
  · rw [cputchars_snoc, ← h.console]
    rfl

end Readline

theorem showPrompt_ok (prompt : Option CString) (console : Console) :
    ∃ start, showPrompt prompt console = .ok start := by
  cases prompt with
  | none => exact ⟨console, rfl⟩
  | some prompt =>
    obtain ⟨out, hout, -⟩ := formatted_silent (.lit "%s") (fun _ => stringArg prompt)
    refine ⟨console.cputchars (out.map Int32.toUInt32), ?_⟩
    unfold showPrompt cprintf
    dsimp only
    rw [vcprintf_run hout]
    rfl

theorem readline_eq {prompt : Option CString} {console start : Console}
    (hstart : showPrompt prompt console = .ok start) (buf : Int → UInt8) (input : List Int32) :
    readline prompt buf input console =
      Readline.loop (iscons 0) input ⟨buf, 0, start, []⟩ := by
  unfold readline
  rw [hstart]
  rfl

/-- The end of the line is the first character that is not taken as typed. -/
theorem input_eq_typed {input : List Int32} (hend : ∃ c ∈ input, LineEnd c) :
    ∃ last rest, LineEnd last ∧ input = typed input ++ last :: rest ∧
      (input.dropWhile (fun c => ¬ LineEnd c)).tail = rest := by
  obtain ⟨c, hc, hline⟩ := hend
  have hsplit := List.takeWhile_append_dropWhile (p := fun c => decide ¬ LineEnd c) (l := input)
  cases hdrop : input.dropWhile (fun c => ¬ LineEnd c) with
  | nil =>
    have hall := List.dropWhile_eq_nil_iff.mp hdrop c hc
    simp [hline] at hall
  | cons last rest =>
    have hlast := List.head_dropWhile_not (fun c => decide ¬ LineEnd c) (l := input)
      (by rw [hdrop]; exact List.cons_ne_nil _ _)
    simp only [hdrop, List.head_cons] at hlast
    refine ⟨last, rest, by simpa using hlast, ?_, rfl⟩
    rw [hdrop] at hsplit
    exact hsplit.symm

theorem typed_no_end (input : List Int32) : ∀ c ∈ typed input, ¬ LineEnd c := by
  intro c hc
  simpa using List.mem_takeWhile_imp hc

/-- What `readline` does, whatever is typed. -/
theorem readline_chain (prompt : Option CString) (buf : Int → UInt8) (input : List Int32)
    (console : Console) (hnonneg : ∀ c ∈ input, 0 ≤ c) (hend : ∃ c ∈ input, LineEnd c) :
    Edits chainEdit prompt buf input console := by
  obtain ⟨start, hstart⟩ := showPrompt_ok prompt console
  obtain ⟨last, rest, hlast, hinput, htail⟩ := input_eq_typed hend
  have htyped : ∀ c ∈ typed input, 0 ≤ c := fun c hc =>
    hnonneg c ((List.takeWhile_prefix _).subset hc)
  have hempty : Readline.Editing [] start [] ⟨buf, 0, start, []⟩ :=
    ⟨rfl, by decide, fun k hk => absurd hk (Nat.not_lt_zero k), rfl, rfl⟩
  obtain ⟨t, hloop, hediting⟩ := hempty.loop htyped (typed_no_end input) (last :: rest)
  obtain ⟨s, hround, hholds, hechoed, hconsole⟩ := hediting.round_end hlast
  rw [List.nil_append] at hechoed hconsole
  refine ⟨start, s, hstart, ?_, hholds, hechoed, by rw [hconsole, hechoed], ?_⟩
  · rw [htail, readline_eq hstart, hinput, hloop, Readline.loop, hround]
    rfl
  · rintro before ⟨after, hbefore⟩
    have hsub : ∀ c ∈ before, c ∈ typed input := fun c hc =>
      hbefore ▸ List.mem_append_left after hc
    obtain ⟨u, hloop, hediting⟩ := hempty.loop (fun c hc => htyped c (hsub c hc))
      (fun c hc => typed_no_end input c (hsub c hc)) []
    refine ⟨u, ?_, ?_, ?_⟩
    · rw [List.append_nil] at hloop
      rw [readline_eq hstart, hloop]
      rfl
    · rw [hediting.index]
      exact Int.natCast_nonneg _
    · rw [hediting.index]
      exact hediting.room

/-- `readline` edits the line as it is meant to exactly when no DEL is typed while the line
is empty: the test for it then fails, and the next one finds that 0x7F is not below a
blank. -/
theorem readline_edits_iff (prompt : Option CString) (buf : Int → UInt8) (input : List Int32)
    (console : Console) (hnonneg : ∀ c ∈ input, 0 ≤ c) (hend : ∃ c ∈ input, LineEnd c) :
    Edits plainEdit prompt buf input console ↔ DelFindsText [] (typed input) := by
  have hchain := readline_chain prompt buf input console hnonneg hend
  constructor
  · rintro ⟨start, s, -, hline, -, hechoed, -⟩
    obtain ⟨start', s', -, hline', -, hechoed', -⟩ := hchain
    have hsame := hline.symm.trans hline'
    obtain rfl : s = s' := by simpa using hsame
    apply delFindsText_of_shown
    exact List.append_cancel_right (hechoed'.symm.trans hechoed)
  · intro hfinds
    unfold Edits
    rw [← chainEdit_run hfinds]
    exact hchain

/-- A character is typed and removed again by DEL. -/
theorem readline_edits_iff_del :
    Edits plainEdit none (fun _ => 0) [0x6C, 0x7F, 0x0D] .idle := by
  apply (readline_edits_iff none (fun _ => 0) [0x6C, 0x7F, 0x0D] .idle (by simp)
    ⟨0x0D, by decide, by decide⟩).mpr
  change DelFindsText [] [0x6C, 0x7F]
  exact delFindsText_cons.mpr ⟨by decide, delFindsText_cons.mpr ⟨by decide,
    delFindsText_of_shown rfl⟩⟩

/-- The DEL that comes first is echoed, and stored in the line. -/
theorem readline_keeps_del :
    (∀ c ∈ ([0x7F, 0x0A] : List Int32), 0 ≤ c) ∧ (∃ c ∈ ([0x7F, 0x0A] : List Int32), LineEnd c) ∧
      ¬ Edits plainEdit none (fun _ => 0) [0x7F, 0x0A] .idle := by
  have hnonneg : ∀ c ∈ ([0x7F, 0x0A] : List Int32), 0 ≤ c := by simp
  have hend : ∃ c ∈ ([0x7F, 0x0A] : List Int32), LineEnd c := ⟨0x0A, by decide, by decide⟩
  refine ⟨hnonneg, hend, ?_⟩
  rintro ⟨start, s, -, hline, -, hechoed, -⟩
  obtain ⟨start', s', -, hline', -, hechoed', -⟩ :=
    readline_chain none (fun _ => 0) [0x7F, 0x0A] .idle hnonneg hend
  have hsame := hline.symm.trans hline'
  obtain rfl : s = s' := by simpa using hsame
  rw [hechoed] at hechoed'
  revert hechoed'
  decide

end Jos
