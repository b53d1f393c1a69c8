import Jos.Console
import Jos.Lib.Terminal

/-!
The CGA screen: `crt_buf` is a window on a terminal that keeps every row.
-/

namespace Jos

/-- What `cga_init` finds: the memory at `CGA_BUF` and at `MONO_BUF`, and what the first cell
at `CGA_BUF` reads after a store. -/
structure VideoMemory where
  cgaBuf : Nat → UInt16
  monoBuf : Nat → UInt16
  stored : UInt16 → UInt16

/-- A cell that was never written: a blank, white on black. -/
def blankCell : UInt16 := 0x0720

/-- What `cga_putc` does to a terminal for the character `c` with its attribute. -/
def cgaActions (c : UInt32) : List (Terminal.Action UInt16) :=
  let c := Console.withAttribute c
  if c.toUInt8 = 0x08 then [.backspace ((c &&& ~~~0xFF) ||| 0x20).toUInt16]
  else if c.toUInt8 = 0x0A then [.newline]
  else if c.toUInt8 = 0x0D then [.carriageReturn]
  else if c.toUInt8 = 0x09 then List.replicate 5 (.write blankCell)
  else [.write c.toUInt16]

namespace Console

def cgaInit (m : VideoMemory) (s : Console) : Console :=
  let was := m.cgaBuf 0
  let s :=
    if m.stored 0xA55A ≠ 0xA55A then { s with crtBuf := m.monoBuf, adapter := .mono }
    else { s with crtBuf := Function.update m.cgaBuf 0 was, adapter := .cga }
  -- Extract cursor location
  let s := s.outb s.adapter.addr6845 14
  let (high, s) := s.inb (s.adapter.addr6845 + 1)
  let pos := high.toUInt32 <<< 8
  let s := s.outb s.adapter.addr6845 15
  let (low, s) := s.inb (s.adapter.addr6845 + 1)
  let pos := pos ||| low.toUInt32
  s.setPos pos.toUInt16

/-- The screen as the first rows of a terminal. -/
def terminal (s : Console) : Terminal UInt16 where
  tape i := if i < crtSize then s.crtBuf i else blankCell
  cursor := s.crtPos.toNat
  origin := 0

/-- The screen is the window of the terminal; the memory behind it is as `outside` says. -/
structure Mirrors (outside : Nat → UInt16) (t : Terminal UInt16) (s : Console) : Prop where
  pos : t.cursor = t.origin + s.crtPos.toNat
  cells : ∀ i < crtSize, s.crtBuf i = t.tape (t.origin + i)
  outside : ∀ i, crtSize ≤ i → s.crtBuf i = outside i

/-- Between two calls of `cga_putc`. -/
structure Shows (outside : Nat → UInt16) (t : Terminal UInt16) (s : Console) : Prop where
  within : t.Within crtCols crtSize blankCell
  mirrors : s.Mirrors outside t

variable {outside : Nat → UInt16} {t : Terminal UInt16} {s : Console} {c : UInt32}

theorem low_eq (c : UInt32) (k : UInt8) : c &&& 0xff = k.toUInt32 ↔ c.toUInt8 = k := by
  have hmask : (c &&& 0xff).toNat = c.toNat % 256 := by
    rw [UInt32.toNat_and]
    exact Nat.and_two_pow_sub_one_eq_mod c.toNat 8
  rw [← UInt32.toNat_inj, ← UInt8.toNat_inj, hmask]
  simp

theorem Shows.pos_lt (h : s.Shows outside t) : s.crtPos.toNat < crtSize := by
  have hshown := h.within.shown
  rw [h.mirrors.pos] at hshown
  omega

theorem Mirrors.of_screen {s' : Console} (h : s.Mirrors outside t) (hbuf : s'.crtBuf = s.crtBuf)
    (hpos : s'.crtPos = s.crtPos) : s'.Mirrors outside t := by
  constructor
  · rw [hpos, h.pos]
  · rw [hbuf]
    exact h.cells
  · rw [hbuf]
    exact h.outside

theorem Mirrors.store (h : s.Mirrors outside t) {k : Nat} (hk : k < crtSize) (v : UInt16) :
    (s.storeCrt k v).Mirrors outside
      { t with tape := Function.update t.tape (t.origin + k) v } := by
  refine ⟨h.pos, fun i hi => ?_, fun i hi => ?_⟩
  · change Function.update s.crtBuf k v i = Function.update t.tape (t.origin + k) v (t.origin + i)
    by_cases heq : i = k
    · rw [heq, Function.update_self, Function.update_self]
    · rw [Function.update_of_ne heq, Function.update_of_ne (by omega), h.cells i hi]
  · exact (Function.update_of_ne (by omega) _ _).trans (h.outside i hi)

theorem Mirrors.setPos (h : s.Mirrors outside t) {pos : UInt16} {cursor : Nat}
    (hpos : cursor = t.origin + pos.toNat) :
    (s.setPos pos).Mirrors outside { t with cursor := cursor } :=
  ⟨hpos, h.cells, h.outside⟩

theorem toNat_cols : crtCols.toUInt16.toNat = crtCols := rfl

theorem Shows.cgaChar (h : s.Shows outside t) (c : UInt32) :
    (s.cgaChar c).Mirrors outside (t.move crtCols (.write c.toUInt16)) := by
  have hlt := h.pos_lt
  have hsize : crtSize = 2000 := rfl
  have hnext : (s.crtPos + 1).toNat = s.crtPos.toNat + 1 := by
    rw [UInt16.toNat_add]
    exact Nat.mod_eq_of_lt (by rw [UInt16.toNat_one]; omega)
  have hstore := h.mirrors.store hlt c.toUInt16
  rw [← h.mirrors.pos] at hstore
  apply hstore.setPos
  change t.cursor + 1 = t.origin + (s.crtPos + 1).toNat
  rw [hnext, h.mirrors.pos]
  omega

theorem Shows.cgaReturn (h : s.Shows outside t) :
    s.cgaReturn.Mirrors outside (t.move crtCols .carriageReturn) := by
  apply h.mirrors.setPos
  have hrow := h.within.row
  have hcols : crtCols = 80 := rfl
  have hmod : (s.crtPos % crtCols.toUInt16).toNat = s.crtPos.toNat % crtCols := by
    rw [UInt16.toNat_mod, toNat_cols]
  have hle : s.crtPos % crtCols.toUInt16 ≤ s.crtPos := by
    rw [UInt16.le_iff_toNat_le, hmod]
    exact Nat.mod_le _ _
  rw [UInt16.toNat_sub_of_le _ _ hle, hmod, h.mirrors.pos, hcols]
  rw [hcols] at hrow
  omega

theorem Shows.cgaNewline (h : s.Shows outside t) :
    s.cgaNewline.Mirrors outside (t.move crtCols .newline) := by
  apply (h.mirrors.setPos rfl).setPos
  have hlt := h.pos_lt
  have hsize : crtSize = 2000 := rfl
  have hrow := h.within.row
  have hcols : crtCols = 80 := rfl
  have hnext : (s.crtPos + crtCols.toUInt16).toNat = s.crtPos.toNat + crtCols := by
    rw [UInt16.toNat_add, toNat_cols]
    exact Nat.mod_eq_of_lt (by omega)
  have hmod : ((s.crtPos + crtCols.toUInt16) % crtCols.toUInt16).toNat =
      (s.crtPos.toNat + crtCols) % crtCols := by
    rw [UInt16.toNat_mod, toNat_cols, hnext]
  have hle : (s.crtPos + crtCols.toUInt16) % crtCols.toUInt16 ≤ s.crtPos + crtCols.toUInt16 := by
    rw [UInt16.le_iff_toNat_le, hmod, hnext]
    exact Nat.mod_le _ _
  change (t.cursor / crtCols + 1) * crtCols = t.origin +
    (s.crtPos + crtCols.toUInt16 - (s.crtPos + crtCols.toUInt16) % crtCols.toUInt16).toNat
  rw [UInt16.toNat_sub_of_le _ _ hle, hmod, hnext, h.mirrors.pos, hcols]
  rw [hcols] at hrow
  omega

theorem Shows.cgaBackspace (h : s.Shows outside t) (c : UInt32) :
    (s.cgaBackspace c).Mirrors outside
      (t.move crtCols (.backspace ((c &&& ~~~0xFF) ||| 0x20).toUInt16)) := by
  have hpos := h.mirrors.pos
  have hlt := h.pos_lt
  unfold Console.cgaBackspace Terminal.move
  dsimp only
  by_cases hstart : 0 < s.crtPos
  · have hnat : 0 < s.crtPos.toNat := UInt16.lt_iff_toNat_lt.mp hstart
    have hone : 1 ≤ s.crtPos := by
      rw [UInt16.le_iff_toNat_le]
      exact hnat
    have hback : (s.crtPos - 1).toNat = s.crtPos.toNat - 1 := UInt16.toNat_sub_of_le _ _ hone
    have hcell : t.cursor - 1 = t.origin + (s.crtPos - 1).toNat := by
      rw [hback]
      omega
    rw [if_pos hstart, if_pos (by omega), hcell]
    exact (h.mirrors.setPos rfl).store (by omega) _
  · have hzero : s.crtPos.toNat = 0 := by
      have hnat : ¬ 0 < s.crtPos.toNat := fun hlt => hstart (UInt16.lt_iff_toNat_lt.mpr hlt)
      omega
    rw [if_neg hstart, if_neg (by omega)]
    exact h.mirrors

theorem Mirrors.cgaFinish (h : s.Mirrors outside t)
    (hreached : t.Reached crtCols crtSize blankCell) :
    s.cgaFinish.Mirrors outside (t.follow crtCols crtSize) := by
  have hpos := h.pos
  have hsize : crtSize = 2000 := rfl
  have hcols : crtCols = 80 := rfl
  have hscroll : s.scrollFull.Mirrors outside (t.follow crtCols crtSize) := by
    unfold scrollFull Terminal.follow
    by_cases hfull : crtSize ≤ s.crtPos.toNat
    · rw [if_pos hfull, if_pos (by omega)]
      have hle : crtCols.toUInt16 ≤ s.crtPos := by
        rw [UInt16.le_iff_toNat_le, toNat_cols]
        omega
      refine ⟨?_, fun i hi => ?_, fun i hi => ?_⟩
      · change t.cursor = t.origin + crtCols + (s.crtPos - crtCols.toUInt16).toNat
        rw [UInt16.toNat_sub_of_le _ _ hle, toNat_cols]
        omega
      · change (if i < crtSize - crtCols then s.crtBuf (i + crtCols)
          else if i < crtSize then 0x0700 ||| 0x20 else s.crtBuf i) =
            t.tape (t.origin + crtCols + i)
        by_cases hkept : i < crtSize - crtCols
        · rw [if_pos hkept, h.cells _ (by omega), Nat.add_assoc, Nat.add_comm i]
        · rw [if_neg hkept, if_pos hi, hreached.blank _ (by omega)]
          rfl
      · change (if i < crtSize - crtCols then s.crtBuf (i + crtCols)
          else if i < crtSize then 0x0700 ||| 0x20 else s.crtBuf i) = outside i
        rw [if_neg (by omega), if_neg (by omega)]
        exact h.outside i hi
    · rw [if_neg hfull, if_neg (by omega)]
      exact h
  exact hscroll.of_screen rfl rfl

theorem Shows.act {s' : Console} (h : s.Shows outside t) {a : Terminal.Action UInt16}
    (hmove : s'.Mirrors outside (t.move crtCols a)) :
    s'.cgaFinish.Shows outside (t.act crtCols crtSize a) := by
  have hreached := h.within.move (by decide) (by decide) a
  exact ⟨hreached.follow (by decide) (by decide), hmove.cgaFinish hreached⟩

/-- `cga_putc` of anything but a tab is one action of the terminal. -/
theorem Shows.cgaPutc_of_not_tab (h : s.Shows outside t) (hc : c.toUInt8 ≠ 0x09) :
    (s.cgaPutc c).Shows outside (t.run crtCols crtSize (cgaActions c)) := by
  rw [Console.cgaPutc]
  unfold cgaActions
  dsimp only
  have hlow := withAttribute_low c
  generalize withAttribute c = attributed at hlow ⊢
  have hback : attributed &&& 0xff = 0x08 ↔ attributed.toUInt8 = 0x08 := low_eq _ 0x08
  have hnewline : attributed &&& 0xff = 0x0A ↔ attributed.toUInt8 = 0x0A := low_eq _ 0x0A
  have hreturn : attributed &&& 0xff = 0x0D ↔ attributed.toUInt8 = 0x0D := low_eq _ 0x0D
  have htab : attributed &&& 0xff = 0x09 ↔ attributed.toUInt8 = 0x09 := low_eq _ 0x09
  have hnotab : ¬ attributed &&& 0xff = 0x09 := by
    rw [hlow]
    exact fun h => hc ((low_eq c 0x09).mp h)
  simp only [dif_neg hnotab, if_neg (mt htab.mpr hnotab), hback, hnewline, hreturn]
  split_ifs
  · exact h.act (h.cgaBackspace attributed)
  · exact h.act h.cgaNewline
  · exact h.act h.cgaReturn
  · exact h.act (h.cgaChar attributed)

theorem awaitReady_screen (p : UInt16) (mask : UInt8) (n : Nat) (s : Console) :
    (s.awaitReady p mask n).crtBuf = s.crtBuf ∧ (s.awaitReady p mask n).crtPos = s.crtPos := by
  induction n generalizing s with
  | zero => exact ⟨rfl, rfl⟩
  | succ n ih =>
    unfold awaitReady
    dsimp only
    split
    · exact ⟨rfl, rfl⟩
    · exact ih _

/-- A blank that takes the place of a tab goes through the other devices first. -/
theorem Shows.consPutc_blank (h : s.Shows outside t) :
    (s.consPutc 0x20).Shows outside (t.act crtCols crtSize (.write blankCell)) := by
  have hserial := awaitReady_screen (com1 + comLsr) comLsrTxrdy 12800 s
  have hlpt := awaitReady_screen (0x378 + 1) 0x80 12800 (s.serialPutc 0x20)
  have hwires : ((s.serialPutc 0x20).lptPutc 0x20).Shows outside t :=
    ⟨h.within, h.mirrors.of_screen (hlpt.1.trans hserial.1) (hlpt.2.trans hserial.2)⟩
  rw [Console.consPutc]
  exact hwires.cgaPutc_of_not_tab (c := 0x20) (by decide)

/-- Where the cursor is inside of the window, the end of `cga_putc` only shows it. -/
theorem Shows.cgaFinish (h : s.Shows outside t) : s.cgaFinish.Shows outside t := by
  have hstay : t.follow crtCols crtSize = t := if_neg (Nat.not_le_of_lt h.within.shown)
  have hfinish := h.mirrors.cgaFinish h.within.toReached
  rw [hstay] at hfinish
  exact ⟨h.within, hfinish⟩

theorem Shows.cgaPutc (h : s.Shows outside t) (c : UInt32) :
    (s.cgaPutc c).Shows outside (t.run crtCols crtSize (cgaActions c)) := by
  by_cases hc : c.toUInt8 = 0x09
  · have hlow : withAttribute c &&& 0xff = 0x09 := by
      rw [withAttribute_low]
      exact (low_eq c 0x09).mpr hc
    have htab : (withAttribute c).toUInt8 = 0x09 := (low_eq _ 0x09).mp hlow
    have hactions : cgaActions c = List.replicate 5 (.write blankCell) := by
      unfold cgaActions
      dsimp only
      rw [htab]
      rfl
    have hblanks := h.consPutc_blank.consPutc_blank.consPutc_blank.consPutc_blank.consPutc_blank
    rw [Console.cgaPutc, hactions]
    simp only [hlow]
    exact hblanks.cgaFinish
  · exact h.cgaPutc_of_not_tab hc

theorem Shows.run (h : s.Shows outside t) (cs : List UInt32) :
    (cs.foldl (fun s c => s.cgaPutc c) s).Shows outside
      (t.run crtCols crtSize (cs.flatMap cgaActions)) := by
  induction cs generalizing s t with
  | nil => exact h
  | cons c cs ih =>
    rw [List.flatMap_cons, Terminal.run, List.foldl_append]
    exact ih (h.cgaPutc c)

theorem shows_terminal (hpos : s.crtPos.toNat < crtSize) : s.Shows s.crtBuf s.terminal := by
  have hwindow : s.terminal.cursor < s.terminal.origin + crtSize := by
    change s.crtPos.toNat < 0 + crtSize
    omega
  refine ⟨⟨⟨rfl, Nat.zero_le _, hwindow.le, fun i hi => if_neg ?_⟩, hwindow⟩, ⟨?_, ?_, ?_⟩⟩
  · change 0 + crtSize ≤ i at hi
    omega
  · exact (Nat.zero_add _).symm
  · intro i hi
    change _ = if 0 + i < crtSize then s.crtBuf (0 + i) else blankCell
    rw [Nat.zero_add, if_pos hi]
  · exact fun _ _ => rfl

/-- However many characters are put, the screen is the window of a terminal that started with
the screen that `cga_init` found, and never lost a row. -/
theorem cga_window (m : VideoMemory) (s : Console) (cs : List UInt32)
    (hpos : (s.cgaInit m).crtPos.toNat < crtSize) :
    let shown := cs.foldl (fun s c => s.cgaPutc c) (s.cgaInit m)
    let t := (s.cgaInit m).terminal.run crtCols crtSize (cs.flatMap cgaActions)
    t.origin % crtCols = 0 ∧ t.cursor = t.origin + shown.crtPos.toNat ∧
      shown.crtPos.toNat < crtSize ∧
      (∀ i < crtSize, shown.crtBuf i = t.tape (t.origin + i)) ∧
      ∀ i, crtSize ≤ i → shown.crtBuf i = (s.cgaInit m).crtBuf i := by
  have hshows := (shows_terminal hpos).run cs
  exact ⟨hshows.within.row, hshows.mirrors.pos, hshows.pos_lt, hshows.mirrors.cells,
    hshows.mirrors.outside⟩

/-- Two screens of text, a new line, a tab and a backspace. -/
def twoScreens : List UInt32 := List.replicate 4000 0x41 ++ [0x0A, 0x09, 0x08]

def blankScreen : VideoMemory := ⟨fun _ => 0x0720, fun _ => 0, id⟩

/-- The ports answer 0: the cursor starts in the corner. -/
def cornered : Console := { idle with input := fun _ _ => 0 }

theorem cga_window_corner :
    (twoScreens.foldl (fun s c => s.cgaPutc c) (cornered.cgaInit blankScreen)).crtPos.toNat <
        crtSize ∧
      ∀ i, crtSize ≤ i →
        (twoScreens.foldl (fun s c => s.cgaPutc c) (cornered.cgaInit blankScreen)).crtBuf i =
          (cornered.cgaInit blankScreen).crtBuf i := by
  obtain ⟨-, -, hpos, -, houtside⟩ := cga_window blankScreen cornered twoScreens (by decide)
  exact ⟨hpos, houtside⟩

end Console

end Jos
