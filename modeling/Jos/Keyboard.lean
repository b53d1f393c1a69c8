import Jos.Printf

/-!
The keyboard half of the console driver: scan codes of set 1 to characters, with the state
of the modifier keys in the static `shift`.
-/

namespace Jos

/-- What `kbd_proc_data` works with: the ports, and its static `shift`. -/
structure Kbd where
  console : Console
  shift : UInt32

namespace Kbd

def shiftKeys : UInt32 := (1 : UInt32) <<< 0
def ctl : UInt32 := (1 : UInt32) <<< 1
def alt : UInt32 := (1 : UInt32) <<< 2

def capslock : UInt32 := (1 : UInt32) <<< 3
def numlock : UInt32 := (1 : UInt32) <<< 4
def scrolllock : UInt32 := (1 : UInt32) <<< 5

def e0esc : UInt32 := (1 : UInt32) <<< 6

def kbstatp : UInt16 := 0x64
def kbsDib : UInt8 := 0x01
def kbsTerr : UInt8 := 0x20
def kbdatap : UInt16 := 0x60

def keyHome : UInt8 := 0xE0
def keyEnd : UInt8 := 0xE1
def keyUp : UInt8 := 0xE2
def keyDn : UInt8 := 0xE3
def keyLf : UInt8 := 0xE4
def keyRt : UInt8 := 0xE5
def keyPgup : UInt8 := 0xE6
def keyPgdn : UInt8 := 0xE7
def keyIns : UInt8 := 0xE8
def keyDel : UInt8 := 0xE9

def shiftcode : UInt8 → UInt8
  | 0x1D => ctl.toUInt8
  | 0x2A => shiftKeys.toUInt8
  | 0x36 => shiftKeys.toUInt8
  | 0x38 => alt.toUInt8
  | 0x9D => ctl.toUInt8
  | 0xB8 => alt.toUInt8
  | _ => 0

def togglecode : UInt8 → UInt8
  | 0x3A => capslock.toUInt8
  | 0x45 => numlock.toUInt8
  | 0x46 => scrolllock.toUInt8
  | _ => 0

def text (s : String) : List UInt8 := s.toList.map Char.toUInt8

/-- The keypad, the same with and without shift. -/
def keypad : List UInt8 :=
  [0, 0, 0, 0, 0, 0, 0] ++ text "789-456+1230."

/-- The cursor keys, the same in all maps. -/
def cursorKey : UInt8 → UInt8
  | 0xC8 => keyUp
  | 0xC9 => keyPgup
  | 0xCB => keyLf
  | 0xCD => keyRt
  | 0xCF => keyEnd
  | 0xD0 => keyDn
  | 0xD1 => keyPgdn
  | 0xD2 => keyIns
  | 0xD3 => keyDel
  | _ => 0

/-- The entries from 0x00 to 0x3F. -/
def normalRows : List UInt8 :=
  [0, 0x1B] ++ text "1234567890-=\x08\tqwertyuiop[]\n" ++ [0] ++ text "asdfghjkl;'`" ++ [0] ++
    text "\\zxcvbnm,./" ++ [0] ++ text "*" ++ [0] ++ text " " ++ [0, 0, 0, 0, 0, 0]

def shiftRows : List UInt8 :=
  [0, 0x1B] ++ text "!@#$%^&*()_+\x08\tQWERTYUIOP\x7b\x7d\n" ++ [0] ++ text "ASDFGHJKL:\"~" ++
    [0] ++ text "|ZXCVBNM<>?" ++ [0] ++ text "*" ++ [0] ++ text " " ++ [0, 0, 0, 0, 0, 0]

def normalmap : UInt8 → UInt8
  | 0xC7 => keyHome
  | 0x9C => 0x0A
  | 0xB5 => 0x2F
  | i => if i < 0x58 then (normalRows ++ keypad).getD i.toNat 0 else cursorKey i

def shiftmap : UInt8 → UInt8
  | 0xC7 => keyHome
  | 0x9C => 0x0A
  | 0xB5 => 0x2F
  | i => if i < 0x58 then (shiftRows ++ keypad).getD i.toNat 0 else cursorKey i

/-- `C(x)` for each character of a row. -/
def control (s : String) : List UInt8 := (text s).map (fun c => c - 0x40)

/-- The entries from 0x00 to 0x37. -/
def ctlRows : List UInt8 :=
  List.replicate 16 0 ++ control "QWERTYUIOP" ++ [0, 0, 0x0D, 0] ++ control "ASDFGHJKL" ++
    [0, 0, 0, 0] ++ control "\\ZXCVBNM" ++ [0, 0] ++ control "/" ++ [0, 0]

def ctlmap : UInt8 → UInt8
  | 0x97 => keyHome
  | 0xB5 => 0x2F - 0x40
  | i => if i < 0x38 then ctlRows.getD i.toNat 0 else cursorKey i

/-- `charcode[i]` -/
def charcode (i : UInt32) : UInt8 → UInt8 :=
  if i = 0 then normalmap else if i = 1 then shiftmap else ctlmap

/-- The character with the case of a letter changed, when `CAPSLOCK` is on. -/
def caps (shift : UInt32) (c : Int32) : Int32 :=
  if shift &&& capslock ≠ 0 then
    if 0x61 ≤ c ∧ c ≤ 0x7A then c + (0x41 - 0x61)
    else if 0x41 ≤ c ∧ c ≤ 0x5A then c + (0x61 - 0x41)
    else c
  else c

/-- The branch for a released key. -/
def released (data : UInt8) (shift : UInt32) : UInt32 :=
  let data := if shift &&& e0esc ≠ 0 then data else data &&& 0x7F
  shift &&& ~~~((shiftcode data).toUInt32 ||| e0esc)

/-- The last branch and the two updates of `shift` behind it; with `data` as it is then. -/
def pressed (data : UInt8) (shift : UInt32) : UInt8 × UInt32 :=
  let (data, shift) :=
    if shift &&& e0esc ≠ 0 then (data ||| 0x80, shift &&& ~~~e0esc) else (data, shift)
  let shift := shift ||| (shiftcode data).toUInt32
  let shift := shift ^^^ (togglecode data).toUInt32
  (data, shift)

/-- Get data from the keyboard. If we finish a character, return it, else 0. The result is
-1 if there is no data. -/
def kbdProcData (s : Kbd) : Except Fault (Int32 × Kbd) :=
  let (stat, console) := s.console.inb kbstatp
  let s := { s with console := console }
  if stat &&& kbsDib = 0 then return (-1, s)
  -- Ignore data from mouse.
  else if stat &&& kbsTerr ≠ 0 then return (-1, s)
  else
    let (data, console) := s.console.inb kbdatap
    let s := { s with console := console }
    if data = 0xE0 then return (0, { s with shift := s.shift ||| e0esc })
    else if data &&& 0x80 ≠ 0 then return (0, { s with shift := released data s.shift })
    else do
      let (data, shift) := pressed data s.shift
      let s := { s with shift := shift }
      let c := caps shift (charcode (shift &&& (ctl ||| shiftKeys)) data).toUInt32.toInt32
      -- Ctrl-Alt-Del: reboot
      if ~~~shift &&& (ctl ||| alt) = 0 ∧ c = keyDel.toUInt32.toInt32 then
        let (_, console) ← cprintf (.lit "Rebooting!\n") (fun _ => ⟨0, .lit ""⟩) s.console
        return (c, { s with console := console.outb 0x92 0x3 })
      else return (c, s)

/-- One call of `kbd_proc_data`, with what the controller shows at its two ports. -/
structure Call where
  stat : UInt8
  data : UInt8

/-- There is data, and it is not from the mouse. -/
def Call.HasData (c : Call) : Prop := c.stat &&& kbsDib ≠ 0 ∧ c.stat &&& kbsTerr = 0

instance (c : Call) : Decidable c.HasData :=
  inferInstanceAs (Decidable (c.stat &&& kbsDib ≠ 0 ∧ c.stat &&& kbsTerr = 0))

/-- The ports show what they show during the call. -/
def shown (c : Call) (s : Kbd) : Kbd :=
  let input n port :=
    if port = kbstatp then c.stat
    else if port = kbdatap then c.data
    else s.console.input n port
  { s with console := { s.console with input := input } }

def run : List Call → Kbd → Except Fault Kbd
  | [], s => .ok s
  | c :: calls, s => do
    let (_, s) ← (s.shown c).kbdProcData
    run calls s

/-- The data bytes that the calls read. -/
def delivered (calls : List Call) : List UInt8 :=
  (calls.filter (fun c => c.HasData)).map Call.data

/-- What a data byte does to `shift`. -/
def shiftAfter (shift : UInt32) (data : UInt8) : UInt32 :=
  if data = 0xE0 then shift ||| e0esc
  else if data &&& 0x80 ≠ 0 then released data shift
  else (pressed data shift).2

section

variable {x y m b : UInt32}

theorem or_and : (x ||| y) &&& b = (x &&& b) ||| (y &&& b) := by
  apply UInt32.toBitVec_inj.mp
  ext i hi
  simp [Bool.and_or_distrib_right]

theorem or_set : (x ||| y) &&& b ≠ 0 ↔ x &&& b ≠ 0 ∨ y &&& b ≠ 0 := by
  rw [or_and, ne_eq, UInt32.or_eq_zero_iff]
  exact not_and_or

theorem clear_other (h : m &&& b = 0) : x &&& ~~~m &&& b = x &&& b := by
  have hbits := congrArg UInt32.toBitVec h
  apply UInt32.toBitVec_inj.mp
  ext i hi
  have hbit := congrArg (fun v : BitVec 32 => v.getLsbD i) hbits
  simp at hbit ⊢
  grind

theorem clear_same (h : m &&& b = b) : x &&& ~~~m &&& b = 0 := by
  have hbits := congrArg UInt32.toBitVec h
  apply UInt32.toBitVec_inj.mp
  ext i hi
  have hbit := congrArg (fun v : BitVec 32 => v.getLsbD i) hbits
  simp at hbit ⊢
  grind

theorem toggle_other (h : m &&& b = 0) : (x ^^^ m) &&& b = x &&& b := by
  have hdistrib : (x ^^^ m) &&& b = (x &&& b) ^^^ (m &&& b) := by
    apply UInt32.toBitVec_inj.mp
    ext i hi
    simp [Bool.and_xor_distrib_right]
  rw [hdistrib, h, UInt32.xor_zero]

end

inductive Modifier where
  | shift
  | control
  | alt
deriving DecidableEq

/-- The bit of `shift` that stands for a modifier. -/
def Modifier.bit : Modifier → UInt32
  | .shift => shiftKeys
  | .control => ctl
  | .alt => Kbd.alt

/-- A key of the keyboard. Its codes come with the prefix 0xE0 if it is `extended`. The codes
of a key can be told from the prefix. -/
structure Key where
  extended : Bool
  code : UInt8
  low : code < 0x80
  not_prefix : code ≠ 0x60
deriving DecidableEq

/-- There are two shift keys, and a left and a right control and alt key. -/
def Modifier.Has (m : Modifier) (extended : Bool) (code : UInt8) : Prop :=
  match m with
  | .shift => extended = false ∧ (code = 0x2A ∨ code = 0x36)
  | .control => code = 0x1D
  | .alt => code = 0x38

instance (m : Modifier) (extended : Bool) (code : UInt8) : Decidable (m.Has extended code) :=
  match m with
  | .shift => inferInstanceAs (Decidable (extended = false ∧ (code = 0x2A ∨ code = 0x36)))
  | .control => inferInstanceAs (Decidable (code = 0x1D))
  | .alt => inferInstanceAs (Decidable (code = 0x38))

inductive KeyEvent where
  | down (k : Key)
  | up (k : Key)

/-- The make code and the break code of a key. -/
def KeyEvent.bytes : KeyEvent → List UInt8
  | .down k => if k.extended then [0xE0, k.code] else [k.code]
  | .up k => if k.extended then [0xE0, k.code ||| 0x80] else [k.code ||| 0x80]

/-- Where the tables have the entry of a key. -/
def Key.index (k : Key) : UInt8 := if k.extended then k.code ||| 0x80 else k.code

theorem shiftcode_e0esc (d : UInt8) : (shiftcode d).toUInt32 &&& e0esc = 0 := by
  unfold shiftcode
  split <;> rfl

theorem togglecode_e0esc (d : UInt8) : (togglecode d).toUInt32 &&& e0esc = 0 := by
  unfold togglecode
  split <;> rfl

theorem shiftcode_bit (d : UInt8) (m : Modifier) :
    (shiftcode d).toUInt32 &&& m.bit = 0 ∨ (shiftcode d).toUInt32 &&& m.bit = m.bit := by
  unfold shiftcode
  cases m <;> split <;> decide

theorem togglecode_bit (d : UInt8) (m : Modifier) : (togglecode d).toUInt32 &&& m.bit = 0 := by
  unfold togglecode
  cases m <;> split <;> rfl

theorem e0esc_bit (m : Modifier) : e0esc &&& m.bit = 0 := by
  cases m <;> rfl

theorem shiftcode_modifier (k : Key) (m : Modifier) :
    (shiftcode k.index).toUInt32 &&& m.bit ≠ 0 ↔ m.Has k.extended k.code := by
  obtain ⟨extended, code, hlow, -⟩ := k
  have hall : ∀ n < 128, ∀ extended : Bool,
      (shiftcode (if extended then n.toUInt8 ||| 0x80 else n.toUInt8)).toUInt32 &&& m.bit ≠ 0 ↔
        m.Has extended n.toUInt8 := by
    cases m <;> decide +kernel
  have hcode := hall code.toNat (UInt8.lt_iff_toNat_lt.mp hlow) extended
  simpa [Key.index] using hcode

section

variable {shift : UInt32} {data : UInt8}

/-- The prefix is forgotten with the first code that is not a release, before the key has its
effect. -/
theorem pressed_base (data : UInt8) (shift : UInt32) :
    ∃ base, base &&& e0esc = 0 ∧ (∀ m : Modifier, base &&& m.bit = shift &&& m.bit) ∧
      (pressed data shift).2 = (base ||| (shiftcode (pressed data shift).1).toUInt32) ^^^
        (togglecode (pressed data shift).1).toUInt32 := by
  unfold pressed
  by_cases hesc : shift &&& e0esc ≠ 0
  · rw [if_pos hesc]
    exact ⟨shift &&& ~~~e0esc, clear_same rfl, fun m => clear_other (e0esc_bit m), rfl⟩
  · rw [if_neg hesc]
    exact ⟨shift, not_not.mp hesc, fun _ => rfl, rfl⟩

theorem pressed_bit (data : UInt8) (shift : UInt32) (m : Modifier) :
    (pressed data shift).2 &&& m.bit ≠ 0 ↔
      shift &&& m.bit ≠ 0 ∨ (shiftcode (pressed data shift).1).toUInt32 &&& m.bit ≠ 0 := by
  obtain ⟨base, -, hbase, hpressed⟩ := pressed_base data shift
  rw [hpressed, toggle_other (togglecode_bit _ m), or_set, hbase]

theorem released_bit (data : UInt8) (shift : UInt32) (m : Modifier) :
    released data shift &&& m.bit ≠ 0 ↔ shift &&& m.bit ≠ 0 ∧
      (shiftcode (if shift &&& e0esc ≠ 0 then data else data &&& 0x7F)).toUInt32 &&& m.bit = 0 := by
  unfold released
  dsimp only
  generalize (if shift &&& e0esc ≠ 0 then data else data &&& 0x7F) = d
  have hmask : ((shiftcode d).toUInt32 ||| e0esc) &&& m.bit =
      (shiftcode d).toUInt32 &&& m.bit := by
    rw [or_and, e0esc_bit, UInt32.or_zero]
  rcases shiftcode_bit d m with hzero | hbit
  · rw [clear_other (hmask.trans hzero), hzero]
    exact (and_iff_left rfl).symm
  · have hset : m.bit ≠ 0 := by
      cases m <;> decide
    rw [clear_same (hmask.trans hbit), hbit]
    exact iff_of_false (fun h => h rfl) (fun h => hset h.2)

/-- The bit for the prefix is set exactly when the last byte was 0xE0. -/
theorem shiftAfter_e0esc (shift : UInt32) (data : UInt8) :
    shiftAfter shift data &&& e0esc ≠ 0 ↔ data = 0xE0 := by
  unfold shiftAfter
  split
  · next hprefix => exact iff_of_true (or_set.mpr (.inr (by decide))) hprefix
  next hprefix =>
  split
  · unfold released
    dsimp only
    rw [clear_same (by rw [or_and, shiftcode_e0esc, UInt32.zero_or, UInt32.and_self])]
    exact iff_of_false (fun h => h rfl) hprefix
  · obtain ⟨base, hbase, -, hpressed⟩ := pressed_base data shift
    rw [hpressed, toggle_other (togglecode_e0esc _), or_and, hbase, shiftcode_e0esc,
      UInt32.zero_or]
    exact iff_of_false (fun h => h rfl) hprefix

/-- The codes of a key can be told apart. -/
structure Codes (code : UInt8) : Prop where
  make_high : code &&& 0x80 = 0
  make_plain : code ≠ 0xE0
  break_high : (code ||| 0x80) &&& 0x80 ≠ 0
  break_plain : code ≠ 0x60 → code ||| 0x80 ≠ 0xE0
  break_low : (code ||| 0x80) &&& 0x7F = code

theorem codes {code : UInt8} (h : code < 0x80) : Codes code := by
  have hall : ∀ n < 128, n.toUInt8 &&& 0x80 = 0 ∧ n.toUInt8 ≠ 0xE0 ∧
      (n.toUInt8 ||| 0x80) &&& 0x80 ≠ 0 ∧ (n.toUInt8 ≠ 0x60 → n.toUInt8 ||| 0x80 ≠ 0xE0) ∧
      (n.toUInt8 ||| 0x80) &&& 0x7F = n.toUInt8 := by decide +kernel
  have hcode := hall code.toNat (UInt8.lt_iff_toNat_lt.mp h)
  simp only [Nat.toUInt8_eq, UInt8.ofNat_toNat] at hcode
  exact ⟨hcode.1, hcode.2.1, hcode.2.2.1, hcode.2.2.2.1, hcode.2.2.2.2⟩

theorem shiftAfter_prefix (shift : UInt32) : shiftAfter shift 0xE0 = shift ||| e0esc := rfl

theorem shiftAfter_make (k : Key) (shift : UInt32) :
    shiftAfter shift k.code = (pressed k.code shift).2 := by
  have hcodes := codes k.low
  unfold shiftAfter
  rw [if_neg hcodes.make_plain, if_neg (not_not.mpr hcodes.make_high)]

theorem shiftAfter_break (k : Key) (shift : UInt32) :
    shiftAfter shift (k.code ||| 0x80) = released (k.code ||| 0x80) shift := by
  have hcodes := codes k.low
  unfold shiftAfter
  rw [if_neg (hcodes.break_plain k.not_prefix), if_pos hcodes.break_high]

theorem prefix_bit (shift : UInt32) (m : Modifier) :
    (shift ||| e0esc) &&& m.bit = shift &&& m.bit := by
  rw [or_and, e0esc_bit, UInt32.or_zero]

theorem prefix_e0esc (shift : UInt32) : (shift ||| e0esc) &&& e0esc ≠ 0 :=
  or_set.mpr (.inr (by decide))

/-- The make code of a key sets the bit of its modifier. -/
theorem down_bit (k : Key) (hshift : shift &&& e0esc = 0) (m : Modifier) :
    (KeyEvent.down k).bytes.foldl shiftAfter shift &&& m.bit ≠ 0 ↔
      shift &&& m.bit ≠ 0 ∨ m.Has k.extended k.code := by
  rw [← shiftcode_modifier]
  unfold KeyEvent.bytes Key.index
  dsimp only
  split
  · have hindex : (pressed k.code (shift ||| e0esc)).1 = k.code ||| 0x80 := by
      unfold pressed
      rw [if_pos (prefix_e0esc shift)]
    rw [List.foldl_cons, shiftAfter_prefix, List.foldl_cons, List.foldl_nil, shiftAfter_make,
      pressed_bit, hindex, prefix_bit]
  · have hindex : (pressed k.code shift).1 = k.code := by
      unfold pressed
      rw [if_neg (not_not.mpr hshift)]
    rw [List.foldl_cons, List.foldl_nil, shiftAfter_make, pressed_bit, hindex]

/-- The break code of a key clears the bit of its modifier. -/
theorem up_bit (k : Key) (hshift : shift &&& e0esc = 0) (m : Modifier) :
    (KeyEvent.up k).bytes.foldl shiftAfter shift &&& m.bit ≠ 0 ↔
      shift &&& m.bit ≠ 0 ∧ ¬ m.Has k.extended k.code := by
  rw [← shiftcode_modifier, not_not]
  unfold KeyEvent.bytes Key.index
  dsimp only
  split
  · rw [List.foldl_cons, shiftAfter_prefix, List.foldl_cons, List.foldl_nil, shiftAfter_break,
      released_bit, if_pos (prefix_e0esc shift), prefix_bit]
  · rw [List.foldl_cons, List.foldl_nil, shiftAfter_break, released_bit,
      if_neg (not_not.mpr hshift), (codes k.low).break_low]

end

theorem call_shift (c : Call) (s : Kbd) :
    ∃ r t, (s.shown c).kbdProcData = .ok (r, t) ∧
      t.shift = if c.HasData then shiftAfter s.shift c.data else s.shift := by
  have hstat : ∀ n, (s.shown c).console.input n kbstatp = c.stat := fun _ => rfl
  have hdata : ∀ n, (s.shown c).console.input n kbdatap = c.data := fun _ => rfl
  unfold kbdProcData Console.inb
  dsimp only
  rw [hstat, hdata]
  by_cases hready : c.stat &&& kbsDib = 0
  · have hnone : ¬ c.HasData := fun h => h.1 hready
    rw [if_pos hready, if_neg hnone]
    exact ⟨_, _, rfl, rfl⟩
  by_cases hmouse : c.stat &&& kbsTerr ≠ 0
  · have hnone : ¬ c.HasData := fun h => hmouse h.2
    rw [if_neg hready, if_pos hmouse, if_neg hnone]
    exact ⟨_, _, rfl, rfl⟩
  have hsome : c.HasData := ⟨hready, not_not.mp hmouse⟩
  rw [if_neg hready, if_neg hmouse, if_pos hsome]
  unfold shiftAfter
  by_cases hprefix : c.data = 0xE0
  · rw [if_pos hprefix, if_pos hprefix]
    exact ⟨_, _, rfl, rfl⟩
  rw [if_neg hprefix, if_neg hprefix]
  by_cases hrelease : c.data &&& 0x80 ≠ 0
  · rw [if_pos hrelease, if_pos hrelease]
    exact ⟨_, _, rfl, rfl⟩
  rw [if_neg hrelease, if_neg hrelease]
  split
  · obtain ⟨out, hout, -⟩ := formatted_silent (.lit "Rebooting!\n") (fun _ => ⟨0, .lit ""⟩)
    unfold cprintf
    rw [vcprintf_run hout]
    exact ⟨_, _, rfl, rfl⟩
  · exact ⟨_, _, rfl, rfl⟩

/-- The calls that find no data leave `shift` alone. -/
theorem run_shift (calls : List Call) (s : Kbd) :
    ∃ t, run calls s = .ok t ∧ t.shift = (delivered calls).foldl shiftAfter s.shift := by
  induction calls generalizing s with
  | nil => exact ⟨s, rfl, rfl⟩
  | cons c calls ih =>
    obtain ⟨r, s', hcall, hshift⟩ := call_shift c s
    obtain ⟨t, hrun, hlast⟩ := ih s'
    refine ⟨t, ?_, ?_⟩
    · rw [run, hcall]
      exact hrun
    · rw [hlast, hshift]
      unfold delivered
      by_cases hdata : c.HasData
      · rw [if_pos hdata, List.filter_cons_of_pos (by simpa using hdata)]
        rfl
      · rw [if_neg hdata, List.filter_cons_of_neg (by simpa using hdata)]

/-- The part of the calls that reads a first part of the bytes. -/
theorem delivered_prefix {calls : List Call} {first rest : List UInt8}
    (h : delivered calls = first ++ rest) :
    ∃ before, before <+: calls ∧ delivered before = first := by
  obtain ⟨kept, last, hkept, hfirst, -⟩ := List.map_eq_append_iff.mp h
  obtain ⟨before, after, hcalls, hbefore, -⟩ := List.filter_eq_append_iff.mp hkept
  refine ⟨before, ⟨after, hcalls.symm⟩, ?_⟩
  unfold delivered
  rw [hbefore, hfirst]

theorem foldl_e0esc (bytes : List UInt8) :
    bytes.foldl shiftAfter 0 &&& e0esc ≠ 0 ↔ bytes.getLast? = some 0xE0 := by
  induction bytes using List.reverseRecOn with
  | nil => decide
  | append_singleton bytes data _ =>
    rw [List.foldl_append, List.foldl_cons, List.foldl_nil, shiftAfter_e0esc,
      List.getLast?_concat, Option.some_inj]

/-- Between two codes no prefix is pending. -/
theorem event_e0esc (e : KeyEvent) (shift : UInt32) :
    e.bytes.foldl shiftAfter shift &&& e0esc = 0 := by
  have hlast : ∀ (bytes : List UInt8) (data : UInt8), data ≠ 0xE0 →
      (bytes ++ [data]).foldl shiftAfter shift &&& e0esc = 0 := by
    intro bytes data hdata
    rw [List.foldl_append, List.foldl_cons, List.foldl_nil]
    exact not_not.mp fun h => hdata ((shiftAfter_e0esc _ data).mp h)
  cases e with
  | down k =>
    have hmake := (codes k.low).make_plain
    unfold KeyEvent.bytes
    dsimp only
    split
    · exact hlast [0xE0] _ hmake
    · exact hlast [] _ hmake
  | up k =>
    have hbreak := (codes k.low).break_plain k.not_prefix
    unfold KeyEvent.bytes
    dsimp only
    split
    · exact hlast [0xE0] _ hbreak
    · exact hlast [] _ hbreak

/-- The keys that are down. -/
def hold (held : Key → Bool) : KeyEvent → Key → Bool
  | .down k => Function.update held k true
  | .up k => Function.update held k false

def heldAfter (events : List KeyEvent) : Key → Bool := events.foldl hold (fun _ => false)

theorem heldAfter_concat (events : List KeyEvent) (e : KeyEvent) :
    heldAfter (events ++ [e]) = hold (heldAfter events) e := List.foldl_append ..

/-- A key that goes up has gone down. -/
def Possible (events : List KeyEvent) : Prop :=
  ∀ before k after, events = before ++ .up k :: after → heldAfter before k = true

/-- A modifier bit is set exactly when a key of the modifier is down. -/
def Tracks (held : Key → Bool) (shift : UInt32) : Prop :=
  ∀ m : Modifier, shift &&& m.bit ≠ 0 ↔ ∃ k : Key, m.Has k.extended k.code ∧ held k = true

/-- When the key `k` goes up, no other key of the same modifier is down. -/
def ReleasedAlone (held : Key → Bool) (k : Key) : Prop :=
  ∀ (m : Modifier) (other : Key), m.Has k.extended k.code → m.Has other.extended other.code →
    other ≠ k → held other = false

def AllReleasedAlone (events : List KeyEvent) : Prop :=
  ∀ before k after, events = before ++ .up k :: after → ReleasedAlone (heldAfter before) k

/-- Along the calls that read the codes of the events the bit for the prefix is set exactly
when the last byte was 0xE0, and after every complete code the modifiers are right. -/
def DecodesModifiers (console : Console) (events : List KeyEvent) (calls : List Call) : Prop :=
  ∀ before, before <+: calls → ∃ s, run before ⟨console, 0⟩ = .ok s ∧
    (s.shift &&& e0esc ≠ 0 ↔ (delivered before).getLast? = some 0xE0) ∧
    ∀ done, done <+: events → delivered before = done.flatMap KeyEvent.bytes →
      Tracks (heldAfter done) s.shift

section

variable {held : Key → Bool} {shift : UInt32} {k : Key} {events : List KeyEvent}

theorem Tracks.down (h : Tracks held shift) (hshift : shift &&& e0esc = 0) (k : Key) :
    Tracks (hold held (.down k)) ((KeyEvent.down k).bytes.foldl shiftAfter shift) := by
  intro m
  rw [down_bit k hshift m, h m]
  constructor
  · rintro (⟨other, hhas, hheld⟩ | hhas)
    · refine ⟨other, hhas, ?_⟩
      by_cases heq : other = k
      · rw [heq]
        exact Function.update_self _ _ _
      · exact (Function.update_of_ne heq _ _).trans hheld
    · exact ⟨k, hhas, Function.update_self _ _ _⟩
  · rintro ⟨other, hhas, hheld⟩
    by_cases heq : other = k
    · exact .inr (heq ▸ hhas)
    · exact .inl ⟨other, hhas, (Function.update_of_ne heq _ _).symm.trans hheld⟩

theorem Tracks.up (h : Tracks held shift) (hshift : shift &&& e0esc = 0)
    (halone : ReleasedAlone held k) :
    Tracks (hold held (.up k)) ((KeyEvent.up k).bytes.foldl shiftAfter shift) := by
  intro m
  rw [up_bit k hshift m, h m]
  constructor
  · rintro ⟨⟨other, hhas, hheld⟩, hother⟩
    have hne : other ≠ k := by
      rintro rfl
      exact hother hhas
    exact ⟨other, hhas, (Function.update_of_ne hne _ _).trans hheld⟩
  · rintro ⟨other, hhas, hheld⟩
    have hne : other ≠ k := by
      rintro rfl
      exact Bool.false_ne_true ((Function.update_self _ _ _).symm.trans hheld)
    have hstill : held other = true := (Function.update_of_ne hne _ _).symm.trans hheld
    refine ⟨⟨other, hhas, hstill⟩, fun hk => ?_⟩
    exact Bool.false_ne_true ((halone m other hk hhas hne).symm.trans hstill)

/-- The bit is cleared with the first of two keys that goes up. -/
theorem releasedAlone_of_tracks (hshift : shift &&& e0esc = 0)
    (h : Tracks (hold held (.up k)) ((KeyEvent.up k).bytes.foldl shiftAfter shift)) :
    ReleasedAlone held k := by
  intro m other hk hhas hne
  by_contra hheld
  have hset := (h m).mpr ⟨other, hhas,
    (Function.update_of_ne hne _ _).trans (Bool.not_eq_false _ ▸ hheld)⟩
  exact ((up_bit k hshift m).mp hset).2 hk

theorem events_e0esc (events : List KeyEvent) :
    (events.flatMap KeyEvent.bytes).foldl shiftAfter 0 &&& e0esc = 0 := by
  induction events using List.reverseRecOn with
  | nil => decide
  | append_singleton events e _ =>
    rw [List.flatMap_append, List.flatMap_singleton, List.foldl_append]
    exact event_e0esc e _

theorem AllReleasedAlone.of_prefix {done : List KeyEvent} (h : AllReleasedAlone events)
    (hdone : done <+: events) : AllReleasedAlone done := by
  obtain ⟨rest, rfl⟩ := hdone
  rintro before k after rfl
  exact h before k (after ++ rest) (by simp)

theorem tracks_events (h : AllReleasedAlone events) :
    Tracks (heldAfter events) ((events.flatMap KeyEvent.bytes).foldl shiftAfter 0) := by
  induction events using List.reverseRecOn with
  | nil =>
    intro m
    exact iff_of_false (by simp) (by simp [heldAfter])
  | append_singleton events e ih =>
    have htracks := ih (h.of_prefix (List.prefix_append _ _))
    have hclear := events_e0esc events
    rw [heldAfter_concat, List.flatMap_append, List.flatMap_singleton, List.foldl_append]
    cases e with
    | down k => exact htracks.down hclear k
    | up k => exact htracks.up hclear (h events k [] rfl)

end

/-- The decoder knows which modifiers are held exactly when no modifier key goes up while the
other key of the modifier is down: the two keys share one bit. -/
theorem keyboard_tracks_iff (console : Console) (events : List KeyEvent) (calls : List Call)
    (hcalls : delivered calls = events.flatMap KeyEvent.bytes) :
    DecodesModifiers console events calls ↔ AllReleasedAlone events := by
  constructor
  · rintro h before k after rfl
    have hdone : before ++ [.up k] <+: before ++ .up k :: after := ⟨after, by simp⟩
    have hsplit : delivered calls =
        (before ++ [KeyEvent.up k]).flatMap KeyEvent.bytes ++ after.flatMap KeyEvent.bytes := by
      rw [hcalls, ← List.flatMap_append]
      simp
    obtain ⟨first, hfirst, hdelivered⟩ := delivered_prefix hsplit
    obtain ⟨s, hrun, -, htracks⟩ := h first hfirst
    obtain ⟨t, hrun', hshift⟩ := run_shift first ⟨console, 0⟩
    obtain rfl : s = t := Except.ok.inj (hrun.symm.trans hrun')
    have hlast := htracks _ hdone hdelivered
    rw [heldAfter_concat, hshift, hdelivered, List.flatMap_append, List.flatMap_singleton,
      List.foldl_append] at hlast
    exact releasedAlone_of_tracks (events_e0esc before) hlast
  · intro halone before hbefore
    obtain ⟨s, hrun, hshift⟩ := run_shift before ⟨console, 0⟩
    refine ⟨s, hrun, ?_, ?_⟩
    · rw [hshift]
      exact foldl_e0esc _
    · intro done hdone hdelivered
      rw [hshift, hdelivered]
      exact tracks_events (halone.of_prefix hdone)

def leftShift : Key := ⟨false, 0x2A, by decide, by decide⟩

def rightShift : Key := ⟨false, 0x36, by decide, by decide⟩

def rightControl : Key := ⟨true, 0x1D, by decide, by decide⟩

/-- One modifier key, and calls that find no data in between. -/
theorem keyboard_tracks_iff_control :
    DecodesModifiers .idle [.down rightControl, .up rightControl]
      [⟨0x01, 0xE0⟩, ⟨0x00, 0xE0⟩, ⟨0x01, 0x1D⟩, ⟨0x01, 0xE0⟩, ⟨0x21, 0x08⟩, ⟨0x01, 0x9D⟩] := by
  refine (keyboard_tracks_iff .idle _ _ (by decide)).mpr ?_
  intro before k after heq m other _ _ hne
  rcases before with _ | ⟨first, _ | ⟨second, before⟩⟩
  · simp at heq
  · simp only [List.cons_append, List.nil_append, List.cons.injEq, KeyEvent.up.injEq] at heq
    obtain ⟨rfl, rfl, -⟩ := heq
    exact Function.update_of_ne hne true (fun _ => false)
  · simp at heq

/-- Both shift keys go down, and the left one up. -/
theorem shift_lost :
    Possible [.down leftShift, .down rightShift, .up leftShift] ∧
      ¬ DecodesModifiers .idle [.down leftShift, .down rightShift, .up leftShift]
        [⟨0x01, 0x2A⟩, ⟨0x01, 0x36⟩, ⟨0x01, 0xAA⟩] := by
  constructor
  · intro before k after heq
    rcases before with _ | ⟨first, _ | ⟨second, _ | ⟨third, before⟩⟩⟩
    · simp at heq
    · simp at heq
    · simp only [List.cons_append, List.nil_append, List.cons.injEq, KeyEvent.up.injEq] at heq
      obtain ⟨rfl, rfl, rfl, -⟩ := heq
      decide
    · simp at heq
  · intro h
    obtain ⟨s, hrun, -, htracks⟩ := h _ (List.prefix_refl _)
    obtain ⟨t, hrun', hshift⟩ := run_shift [⟨0x01, 0x2A⟩, ⟨0x01, 0x36⟩, ⟨0x01, 0xAA⟩] ⟨.idle, 0⟩
    obtain rfl : s = t := Except.ok.inj (hrun.symm.trans hrun')
    have hzero : s.shift = 0 := hshift.trans (by decide)
    have hset := (htracks _ (List.prefix_refl _) (by decide) .shift).mpr
      ⟨rightShift, by decide, by decide⟩
    rw [hzero] at hset
    exact hset (by decide)

end Kbd

end Jos
