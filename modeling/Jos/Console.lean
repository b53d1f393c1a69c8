import Mathlib

/-!
The output side of the console driver. The devices are known by their ports:
what an `inb` delivers is arbitrary, and every `outb` is logged, oldest first.
-/

namespace Jos

def com1 : UInt16 := 0x3F8
def comTx : UInt16 := 0
def comLsr : UInt16 := 5
def comLsrTxrdy : UInt8 := 0x20

def crtRows : Nat := 25
def crtCols : Nat := 80
def crtSize : Nat := crtRows * crtCols

/-- The two display adapters that `cga_init` can find. -/
inductive Adapter where
  | cga
  | mono
deriving DecidableEq

/-- `addr_6845`: `CGA_BASE` or `MONO_BASE`. -/
def Adapter.addr6845 : Adapter → UInt16
  | .cga => 0x3D4
  | .mono => 0x3B4

structure Console where
  /-- What the `n`-th `inb` delivers, by port. -/
  input : Nat → UInt16 → UInt8
  inputs : Nat
  outputs : List (UInt16 × UInt8)
  adapter : Adapter
  /-- The memory from `crt_buf` on. -/
  crtBuf : Nat → UInt16
  crtPos : UInt16

namespace Console

def inb (port : UInt16) (s : Console) : UInt8 × Console :=
  (s.input s.inputs port, { s with inputs := s.inputs + 1 })

def outb (port : UInt16) (data : UInt8) (s : Console) : Console :=
  { s with outputs := s.outputs ++ [(port, data)] }

def delay (s : Console) : Console :=
  let (_, s) := s.inb 0x84
  let (_, s) := s.inb 0x84
  let (_, s) := s.inb 0x84
  let (_, s) := s.inb 0x84
  s

/-- `for (i = 0; !(inb(port) & mask) && i < 12800; i++) delay();` with `n`
rounds left. -/
def awaitReady (port : UInt16) (mask : UInt8) : Nat → Console → Console
  | 0, s => (s.inb port).2
  | n + 1, s =>
    let (status, s) := s.inb port
    if status &&& mask ≠ 0 then s else awaitReady port mask n s.delay

def serialPutc (c : UInt32) (s : Console) : Console :=
  (s.awaitReady (com1 + comLsr) comLsrTxrdy 12800).outb (com1 + comTx) c.toUInt8

def lptPutc (c : UInt32) (s : Console) : Console :=
  let s := s.awaitReady (0x378 + 1) 0x80 12800
  let s := s.outb (0x378 + 0) c.toUInt8
  let s := s.outb (0x378 + 2) (0x08 ||| 0x04 ||| 0x01)
  s.outb (0x378 + 2) 0x08

def storeCrt (i : Nat) (v : UInt16) (s : Console) : Console :=
  { s with crtBuf := Function.update s.crtBuf i v }

def setPos (pos : UInt16) (s : Console) : Console :=
  { s with crtPos := pos }

/-- The `memmove` that drops the first row, and the blanking of the last. -/
def scrollCrt (s : Console) : Console :=
  { s with crtBuf := fun i =>
      if i < crtSize - crtCols then s.crtBuf (i + crtCols)
      else if i < crtSize then 0x0700 ||| 0x20
      else s.crtBuf i }

/-- When the cursor has left the screen, make room for one more row. -/
def scrollFull (s : Console) : Console :=
  if crtSize ≤ s.crtPos.toNat then s.scrollCrt.setPos (s.crtPos - crtCols.toUInt16)
  else s

def showCursor (s : Console) : Console :=
  let s := s.outb s.adapter.addr6845 14
  let s := s.outb (s.adapter.addr6845 + 1) (s.crtPos >>> 8).toUInt8
  let s := s.outb s.adapter.addr6845 15
  s.outb (s.adapter.addr6845 + 1) s.crtPos.toUInt8

/-- What follows the switch in `cga_putc`. -/
def cgaFinish (s : Console) : Console :=
  s.scrollFull.showCursor

/-- `if (!(c & ~0xFF)) c |= 0x0700;` -/
def withAttribute (c : UInt32) : UInt32 :=
  if c &&& ~~~0xFF = 0 then c ||| 0x0700 else c

/-- The case `'\b'` of the switch. -/
def cgaBackspace (c : UInt32) (s : Console) : Console :=
  if 0 < s.crtPos then
    (s.setPos (s.crtPos - 1)).storeCrt (s.crtPos - 1).toNat
      ((c &&& ~~~0xFF) ||| 0x20).toUInt16
  else s

/-- The case `'\r'` of the switch. -/
def cgaReturn (s : Console) : Console :=
  s.setPos (s.crtPos - s.crtPos % crtCols.toUInt16)

/-- The case `'\n'` of the switch, which falls through to `'\r'`. -/
def cgaNewline (s : Console) : Console :=
  (s.setPos (s.crtPos + crtCols.toUInt16)).cgaReturn

/-- The default case of the switch: `crt_buf[crt_pos++] = c`. -/
def cgaChar (c : UInt32) (s : Console) : Console :=
  (s.storeCrt s.crtPos.toNat c.toUInt16).setPos (s.crtPos + 1)

/-- Of the mutual recursion of `cons_putc` and `cga_putc` only a tab takes
another turn. -/
def tabs (c : UInt32) : Nat :=
  if withAttribute c &&& 0xff = 0x09 then 1 else 0

@[simp] theorem tabs_space : tabs 0x20 = 0 := rfl

mutual

def cgaPutc (c : UInt32) (s : Console) : Console :=
  let attributed := withAttribute c
  if attributed &&& 0xff = 0x08 then (s.cgaBackspace attributed).cgaFinish
  else if attributed &&& 0xff = 0x0A then s.cgaNewline.cgaFinish
  else if attributed &&& 0xff = 0x0D then s.cgaReturn.cgaFinish
  else if _htab : attributed &&& 0xff = 0x09 then
    let s := consPutc 0x20 s
    let s := consPutc 0x20 s
    let s := consPutc 0x20 s
    let s := consPutc 0x20 s
    let s := consPutc 0x20 s
    s.cgaFinish
  else (s.cgaChar attributed).cgaFinish
termination_by 2 * tabs c
decreasing_by all_goals
  have htabs : tabs c = 1 := if_pos _htab
  rw [htabs]
  decide

def consPutc (c : UInt32) (s : Console) : Console :=
  let s := s.serialPutc c
  let s := s.lptPutc c
  cgaPutc c s
termination_by 2 * tabs c + 1

end

def cputchar (c : UInt32) (s : Console) : Console :=
  consPutc c s

/-- `cputchar` of each character in turn. -/
def cputchars (cs : List UInt32) (s : Console) : Console :=
  cs.foldl (fun s c => s.cputchar c) s

/-- The bytes sent to a port, oldest first. -/
def sentTo (port : UInt16) (s : Console) : List UInt8 :=
  (s.outputs.filter (fun o => o.1 = port)).map Prod.snd

def serialSent (s : Console) : List UInt8 := s.sentTo (com1 + comTx)

def lptSent (s : Console) : List UInt8 := s.sentTo (0x378 + 0)

theorem withAttribute_low (c : UInt32) : withAttribute c &&& 0xff = c &&& 0xff := by
  unfold withAttribute
  split
  · apply UInt32.toBitVec_inj.mp
    ext i hi
    simp only [UInt32.toBitVec_and, UInt32.toBitVec_or, BitVec.getElem_and,
      BitVec.getElem_or]
    interval_cases i <;> simp
  · rfl

theorem low_eq_iff (c : UInt32) : c &&& 0xff = 0x09 ↔ c.toUInt8 = 0x09 := by
  have hmask : (c &&& 0xff).toNat = c.toNat % 256 := by
    rw [UInt32.toNat_and]
    exact Nat.and_two_pow_sub_one_eq_mod c.toNat 8
  constructor
  · intro h
    apply UInt8.toNat_inj.mp
    have hnat := congrArg UInt32.toNat h
    rw [hmask] at hnat
    simpa using hnat
  · intro h
    apply UInt32.toNat_inj.mp
    have hnat := congrArg UInt8.toNat h
    rw [hmask]
    simpa using hnat

@[simp] theorem sentTo_inb (port p : UInt16) (s : Console) :
    (s.inb p).2.sentTo port = s.sentTo port := rfl

theorem sentTo_outb (port p : UInt16) (d : UInt8) (s : Console) :
    (s.outb p d).sentTo port = s.sentTo port ++ (if p = port then [d] else []) := by
  unfold sentTo outb
  by_cases h : p = port
  · simp [h]
  · simp [h]

theorem sentTo_outb_self (port : UInt16) (d : UInt8) (s : Console) :
    (s.outb port d).sentTo port = s.sentTo port ++ [d] := by
  simp [sentTo_outb]

theorem sentTo_outb_other {port p : UInt16} (h : p ≠ port) (d : UInt8) (s : Console) :
    (s.outb p d).sentTo port = s.sentTo port := by
  simp [sentTo_outb, h]

@[simp] theorem sentTo_delay (port : UInt16) (s : Console) :
    s.delay.sentTo port = s.sentTo port := rfl

@[simp] theorem sentTo_awaitReady (port p : UInt16) (mask : UInt8) (n : Nat) (s : Console) :
    (s.awaitReady p mask n).sentTo port = s.sentTo port := by
  induction n generalizing s with
  | zero => rfl
  | succ n ih =>
    change Console.sentTo port (if (s.inb p).1 &&& mask ≠ 0 then (s.inb p).2
      else awaitReady p mask n (s.inb p).2.delay) = _
    split
    · rfl
    · rw [ih]
      rfl

/-- Both devices have received exactly `bytes` between the two states. -/
structure Received (bytes : List UInt8) (s s' : Console) : Prop where
  serial : s'.serialSent = s.serialSent ++ bytes
  lpt : s'.lptSent = s.lptSent ++ bytes

theorem Received.refl (s : Console) : Received [] s s :=
  ⟨(List.append_nil _).symm, (List.append_nil _).symm⟩

theorem Received.trans {xs ys : List UInt8} {s t u : Console}
    (hst : Received xs s t) (htu : Received ys t u) : Received (xs ++ ys) s u := by
  constructor
  · rw [htu.serial, hst.serial, List.append_assoc]
  · rw [htu.lpt, hst.lpt, List.append_assoc]

theorem serialPutc_received (c : UInt32) (s : Console) :
    (s.serialPutc c).serialSent = s.serialSent ++ [c.toUInt8] ∧
      (s.serialPutc c).lptSent = s.lptSent := by
  have hport : com1 + comTx ≠ 0x378 + 0 := by decide
  constructor
  · exact (sentTo_outb_self _ _ _).trans (congrArg (· ++ _) (sentTo_awaitReady _ _ _ _ s))
  · exact (sentTo_outb_other hport _ _).trans (sentTo_awaitReady _ _ _ _ s)

theorem lptPutc_received (c : UInt32) (s : Console) :
    (s.lptPutc c).serialSent = s.serialSent ∧
      (s.lptPutc c).lptSent = s.lptSent ++ [c.toUInt8] := by
  have hdata : (0x378 + 0 : UInt16) ≠ com1 + comTx := by decide
  have hcontrol : (0x378 + 2 : UInt16) ≠ com1 + comTx := by decide
  have hlpt : (0x378 + 2 : UInt16) ≠ 0x378 + 0 := by decide
  constructor
  · apply (sentTo_outb_other hcontrol _ _).trans
    apply (sentTo_outb_other hcontrol _ _).trans
    apply (sentTo_outb_other hdata _ _).trans
    exact sentTo_awaitReady _ _ _ _ s
  · apply (sentTo_outb_other hlpt _ _).trans
    apply (sentTo_outb_other hlpt _ _).trans
    apply (sentTo_outb_self _ _ _).trans
    exact congrArg (· ++ _) (sentTo_awaitReady _ _ _ _ s)

theorem wires_received (c : UInt32) (s : Console) :
    Received [c.toUInt8] s ((s.serialPutc c).lptPutc c) := by
  obtain ⟨hserial, hserialLpt⟩ := serialPutc_received c s
  obtain ⟨hlptSerial, hlpt⟩ := lptPutc_received c (s.serialPutc c)
  constructor
  · rw [hlptSerial, hserial]
  · rw [hlpt, hserialLpt]

/-- A change of the screen alone. -/
theorem Received.of_outputs {s t : Console} (h : t.outputs = s.outputs) :
    Received [] s t := by
  constructor
  · simp [serialSent, sentTo, h]
  · simp [lptSent, sentTo, h]

theorem scrollFull_outputs (s : Console) : s.scrollFull.outputs = s.outputs := by
  unfold scrollFull
  split <;> rfl

theorem showCursor_outputs (s : Console) :
    s.showCursor.outputs = s.outputs ++ ([(s.adapter.addr6845, 14),
      (s.adapter.addr6845 + 1, (s.crtPos >>> 8).toUInt8), (s.adapter.addr6845, 15),
      (s.adapter.addr6845 + 1, s.crtPos.toUInt8)] : List (UInt16 × UInt8)) := by
  simp [showCursor, outb]

theorem showCursor_received (s : Console) : Received [] s s.showCursor := by
  constructor
  · unfold serialSent sentTo
    rw [showCursor_outputs]
    cases s.adapter <;> simp [Adapter.addr6845, com1, comTx]
  · unfold lptSent sentTo
    rw [showCursor_outputs]
    cases s.adapter <;> simp [Adapter.addr6845]

theorem cgaFinish_received (s : Console) : Received [] s s.cgaFinish :=
  (Received.of_outputs (scrollFull_outputs s)).trans (showCursor_received s.scrollFull)

theorem cgaBackspace_outputs (c : UInt32) (s : Console) :
    (s.cgaBackspace c).outputs = s.outputs := by
  unfold cgaBackspace
  split <;> rfl

/-- What reaches both wires for one character: a tab drags its five blanks
along. -/
def wired (c : UInt32) : List UInt8 :=
  if c.toUInt8 = 0x09 then c.toUInt8 :: List.replicate 5 0x20 else [c.toUInt8]

theorem cgaPutc_received_of_not_tab {c : UInt32} (h : c.toUInt8 ≠ 0x09) (s : Console) :
    Received [] s (s.cgaPutc c) := by
  have htab : ¬ withAttribute c &&& 0xff = 0x09 := by
    rw [withAttribute_low]
    exact fun hlow => h ((low_eq_iff c).mp hlow)
  rw [cgaPutc]
  simp only [htab, dite_false]
  split_ifs
  · exact (Received.of_outputs (cgaBackspace_outputs _ s)).trans (cgaFinish_received _)
  · have hscreen : Received [] s s.cgaNewline := Received.of_outputs rfl
    exact hscreen.trans (cgaFinish_received _)
  · have hscreen : Received [] s s.cgaReturn := Received.of_outputs rfl
    exact hscreen.trans (cgaFinish_received _)
  · have hscreen : Received [] s (s.cgaChar (withAttribute c)) := Received.of_outputs rfl
    exact hscreen.trans (cgaFinish_received _)

theorem consPutc_received_of_not_tab {c : UInt32} (h : c.toUInt8 ≠ 0x09) (s : Console) :
    Received [c.toUInt8] s (s.consPutc c) := by
  rw [consPutc]
  exact (wires_received c s).trans (cgaPutc_received_of_not_tab h _)

theorem cgaPutc_received_of_tab {c : UInt32} (h : c.toUInt8 = 0x09) (s : Console) :
    Received (List.replicate 5 0x20) s (s.cgaPutc c) := by
  have htab : withAttribute c &&& 0xff = 0x09 := by
    rw [withAttribute_low]
    exact (low_eq_iff c).mpr h
  have hblank : ∀ t : Console, Received [0x20] t (t.consPutc 0x20) :=
    fun t => consPutc_received_of_not_tab (c := 0x20) (by decide) t
  rw [cgaPutc]
  simp only [htab]
  have hfive := ((((hblank s).trans (hblank _)).trans (hblank _)).trans (hblank _)).trans
    (hblank _)
  exact hfive.trans (cgaFinish_received _)

theorem consPutc_received (c : UInt32) (s : Console) :
    Received (wired c) s (s.consPutc c) := by
  unfold wired
  split
  · next h =>
    rw [consPutc]
    exact (wires_received c s).trans (cgaPutc_received_of_tab h _)
  · next h => exact consPutc_received_of_not_tab h s

theorem cputchars_received (cs : List UInt32) (s : Console) :
    Received (cs.flatMap wired) s (s.cputchars cs) := by
  induction cs generalizing s with
  | nil => exact Received.refl s
  | cons c cs ih =>
    rw [List.flatMap_cons]
    exact (consPutc_received c s).trans (ih (s.cputchar c))

theorem wired_length (c : UInt32) :
    (wired c).length = if c.toUInt8 = 0x09 then 6 else 1 := by
  unfold wired
  split <;> rfl

theorem length_le_wired (cs : List UInt32) :
    cs.length ≤ (cs.flatMap wired).length := by
  induction cs with
  | nil => exact le_refl 0
  | cons c cs ih =>
    have hone : 1 ≤ (wired c).length := by
      rw [wired_length]
      split <;> omega
    simp only [List.flatMap_cons, List.length_append, List.length_cons]
    omega

theorem wired_eq_map_iff (cs : List UInt32) :
    cs.flatMap wired = cs.map UInt32.toUInt8 ↔ ∀ c ∈ cs, c.toUInt8 ≠ 0x09 := by
  constructor
  · intro h c hc htab
    obtain ⟨before, after, rfl⟩ := List.append_of_mem hc
    have hlen := congrArg List.length h
    have hbefore := length_le_wired before
    have hafter := length_le_wired after
    have hsix : (wired c).length = 6 := by rw [wired_length, if_pos htab]
    simp only [List.flatMap_append, List.flatMap_cons, List.length_append, hsix,
      List.length_map, List.length_cons] at hlen
    omega
  · intro h
    induction cs with
    | nil => rfl
    | cons c cs ih =>
      have hc : wired c = [c.toUInt8] := if_neg (h c (by simp))
      rw [List.flatMap_cons, hc, ih (fun d hd => h d (by simp [hd]))]
      rfl

/-- The serial and the parallel port receive the characters passed to
`cputchar`, one byte each, exactly when no tab is among them: the blanks that
the display driver puts in place of a tab go through `cons_putc` again. -/
theorem devices_agree_iff (cs : List UInt32) (s : Console) :
    ((s.cputchars cs).serialSent = s.serialSent ++ cs.map UInt32.toUInt8 ∧
      (s.cputchars cs).lptSent = s.lptSent ++ cs.map UInt32.toUInt8) ↔
    ∀ c ∈ cs, c.toUInt8 ≠ 0x09 := by
  have hreceived := cputchars_received cs s
  rw [hreceived.serial, hreceived.lpt, List.append_cancel_left_eq,
    List.append_cancel_left_eq, and_self_iff]
  exact wired_eq_map_iff cs

/-- A console whose devices are always ready, with nothing sent yet. -/
def idle : Console where
  input _ _ := 0xFF
  inputs := 0
  outputs := []
  adapter := .cga
  crtBuf _ := 0x0720
  crtPos := 0

theorem tab_received_as_blanks :
    (idle.cputchars [0x09]).serialSent ≠
      idle.serialSent ++ [(0x09 : UInt32)].map UInt32.toUInt8 := by
  have hreceived := cputchars_received [0x09] idle
  rw [hreceived.serial]
  decide

end Console

end Jos
