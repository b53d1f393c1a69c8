import Jos.Lib.Ring

/-!
The input side of the console driver: the circular buffer that the device
interrupts fill and `cons_getc` reads, and the runs of these operations in any
order.
-/

namespace Jos

def consBufSize : Nat := 512

/-- The console input buffer `cons`. -/
structure Cons where
  buf : Nat → UInt8
  rpos : UInt32
  wpos : UInt32

/-- The characters that the calls of a device's data function return, in order,
before the call that returns -1. -/
abbrev Device := List UInt8

namespace Cons

def initial : Cons where
  buf _ := 0
  rpos := 0
  wpos := 0

/-- `cons.buf[cons.wpos++] = c`, then wrap `wpos`. -/
def put (c : UInt8) (s : Cons) : Cons :=
  let s := { s with buf := Function.update s.buf s.wpos.toNat c, wpos := s.wpos + 1 }
  if s.wpos.toNat = consBufSize then { s with wpos := 0 } else s

/-- The loop `while ((c = (*proc)()) != -1)`; `dev` is what is left of `proc`'s
deliveries. -/
def consIntr (dev : Device) (s : Cons) : Cons :=
  match dev with
  | [] => s
  | c :: dev => if c = 0 then consIntr dev s else consIntr dev (s.put c)

def serialIntr (serialExists : Bool) (dev : Device) (s : Cons) : Cons :=
  if serialExists then s.consIntr dev else s

def kbdIntr (dev : Device) (s : Cons) : Cons :=
  s.consIntr dev

/-- `c = cons.buf[cons.rpos++]`, then wrap `rpos`. -/
def take (s : Cons) : UInt8 × Cons :=
  let c := s.buf s.rpos.toNat
  let s := { s with rpos := s.rpos + 1 }
  (c, if s.rpos.toNat = consBufSize then { s with rpos := 0 } else s)

def consGetc (serialExists : Bool) (serial kbd : Device) (s : Cons) : UInt8 × Cons :=
  let s := s.serialIntr serialExists serial
  let s := s.kbdIntr kbd
  if s.rpos ≠ s.wpos then s.take else (0, s)

end Cons

/-- One call from outside, with what the devices deliver to it. -/
inductive InputEvent where
  | serialIntr (serial : Device)
  | kbdIntr (kbd : Device)
  | consGetc (serial kbd : Device)

/-- The characters that the buffer is to keep: zeros are skipped. -/
def Device.chars (dev : Device) : List UInt8 :=
  dev.filter (fun c => c ≠ 0)

/-- The nonzero characters that an event delivers: a missing serial port is not
asked. -/
def InputEvent.arrivals (serialExists : Bool) : InputEvent → List UInt8
  | .serialIntr serial => if serialExists then Device.chars serial else []
  | .kbdIntr kbd => Device.chars kbd
  | .consGetc serial kbd =>
    (if serialExists then Device.chars serial else []) ++ Device.chars kbd

/-- The buffer with the log of a run: the nonzero characters delivered so far
and the results of `cons_getc`, oldest first. -/
structure InputRun where
  cons : Cons
  given : List UInt8
  results : List UInt8

namespace InputRun

def initial : InputRun := ⟨.initial, [], []⟩

def step (serialExists : Bool) (r : InputRun) (e : InputEvent) : InputRun :=
  let given := r.given ++ e.arrivals serialExists
  match e with
  | .serialIntr serial => ⟨r.cons.serialIntr serialExists serial, given, r.results⟩
  | .kbdIntr kbd => ⟨r.cons.kbdIntr kbd, given, r.results⟩
  | .consGetc serial kbd =>
    let (c, cons) := r.cons.consGetc serialExists serial kbd
    ⟨cons, given, r.results ++ [c]⟩

def run (serialExists : Bool) (events : List InputEvent) : InputRun :=
  events.foldl (step serialExists) initial

/-- The nonzero results of `cons_getc`. -/
def taken (r : InputRun) : List UInt8 :=
  r.results.filter (fun c => c ≠ 0)

end InputRun

/-- At no moment of the run are more than `CONSBUFSIZE - 1` characters unread.
Within one event that many are unread when its last delivery has been made. -/
def Fits (serialExists : Bool) (events : List InputEvent) : Prop :=
  ∀ before e after, events = before ++ e :: after →
    ((InputRun.run serialExists before).given ++ e.arrivals serialExists).length ≤
      (InputRun.run serialExists before).taken.length + (consBufSize - 1)

namespace Cons

/-- The unread characters, oldest first. -/
def Unread (s : Cons) (q : List UInt8) : Prop :=
  Ring.Holds consBufSize s.buf s.rpos.toNat s.wpos.toNat q

theorem Unread.initial : Cons.initial.Unread [] :=
  Ring.Holds.empty _ (by decide)

theorem wrap_toNat {i : UInt32} (hi : i.toNat < consBufSize) :
    (if (i + 1).toNat = consBufSize then (0 : UInt32) else i + 1).toNat =
      Ring.next consBufSize i.toNat := by
  have hsucc : (i + 1).toNat = i.toNat + 1 := by
    rw [UInt32.toNat_add]
    apply Nat.mod_eq_of_lt
    have hone : (1 : UInt32).toNat = 1 := rfl
    unfold consBufSize at hi
    omega
  unfold Ring.next
  rw [hsucc]
  split
  · rfl
  · exact hsucc

theorem put_eq (c : UInt8) (s : Cons) :
    s.put c = ⟨Function.update s.buf s.wpos.toNat c, s.rpos,
      if (s.wpos + 1).toNat = consBufSize then 0 else s.wpos + 1⟩ := by
  unfold put
  split
  · next h => simp only [h, if_true]
  · next h => simp only [h, if_false]

theorem take_eq (s : Cons) :
    s.take = (s.buf s.rpos.toNat, ⟨s.buf,
      if (s.rpos + 1).toNat = consBufSize then 0 else s.rpos + 1, s.wpos⟩) := by
  unfold take
  dsimp only
  split <;> rfl

theorem Unread.put {s : Cons} {q : List UInt8} (h : s.Unread q)
    (hroom : q.length + 1 ≤ consBufSize - 1) (c : UInt8) : (s.put c).Unread (q ++ [c]) := by
  rw [put_eq]
  unfold Unread
  rw [wrap_toNat h.last_lt]
  have hsize : consBufSize = 512 := rfl
  exact Ring.Holds.push h (by omega) c

theorem Unread.take {s : Cons} {c : UInt8} {q : List UInt8} (h : s.Unread (c :: q)) :
    s.take.1 = c ∧ s.take.2.Unread q := by
  obtain ⟨hfirst, hrest⟩ := Ring.Holds.pop h
  rw [take_eq]
  constructor
  · exact hfirst
  · unfold Unread
    rw [wrap_toNat h.first_lt]
    exact hrest

theorem Unread.consIntr {s : Cons} {q : List UInt8} (h : s.Unread q) (dev : Device)
    (hroom : q.length + dev.chars.length ≤ consBufSize - 1) :
    (s.consIntr dev).Unread (q ++ dev.chars) := by
  induction dev generalizing s q with
  | nil => simpa [Cons.consIntr, Device.chars] using h
  | cons c dev ih =>
    rw [Cons.consIntr]
    split
    · next hzero =>
      have hskip : Device.chars (c :: dev) = Device.chars dev := by
        simp [Device.chars, hzero]
      rw [hskip] at hroom ⊢
      exact ih h hroom
    · next hzero =>
      have hkeep : Device.chars (c :: dev) = c :: Device.chars dev := by
        simp [Device.chars, hzero]
      rw [hkeep, List.length_cons] at hroom
      have hnext := ih (h.put (by omega) c) (by simp; omega)
      rw [hkeep]
      simpa using hnext

theorem Unread.serialIntr {s : Cons} {q : List UInt8} (h : s.Unread q) (present : Bool)
    (dev : Device)
    (hroom : q.length + (InputEvent.serialIntr dev |>.arrivals present).length ≤
      consBufSize - 1) :
    (s.serialIntr present dev).Unread (q ++ (InputEvent.serialIntr dev).arrivals present) := by
  unfold Cons.serialIntr
  unfold InputEvent.arrivals at hroom ⊢
  cases present with
  | false => simpa using h
  | true => exact h.consIntr dev hroom

/-- What `cons_getc` returns and leaves: it polls both devices, then takes the
oldest unread character if there is one. -/
theorem Unread.consGetc {s : Cons} {q : List UInt8} (h : s.Unread q) (present : Bool)
    (serial kbd : Device)
    (hroom : (q ++ (InputEvent.consGetc serial kbd).arrivals present).length ≤
      consBufSize - 1) :
    let queue := q ++ (InputEvent.consGetc serial kbd).arrivals present
    (s.consGetc present serial kbd).1 = queue.headD 0 ∧
      (s.consGetc present serial kbd).2.Unread queue.tail := by
  have harrivals : (InputEvent.consGetc serial kbd).arrivals present =
      (InputEvent.serialIntr serial).arrivals present ++ kbd.chars := rfl
  rw [harrivals, ← List.append_assoc] at hroom ⊢
  rw [List.length_append] at hroom
  have hserial := h.serialIntr present serial (by
    rw [List.length_append] at hroom
    omega)
  have hkbd := hserial.consIntr kbd hroom
  generalize hqueue : q ++ (InputEvent.serialIntr serial).arrivals present ++ kbd.chars = queue
    at hkbd
  unfold Cons.consGetc kbdIntr
  have hindices := hkbd.indices_eq_iff
  cases queue with
  | nil =>
    have heq := UInt32.toNat_inj.mp (hindices.mpr rfl)
    simpa [heq] using hkbd
  | cons c queue =>
    have hne : ((s.serialIntr present serial).consIntr kbd).rpos ≠
        ((s.serialIntr present serial).consIntr kbd).wpos := by
      intro heq
      exact List.cons_ne_nil c queue (hindices.mp (congrArg UInt32.toNat heq))
    simpa [hne] using hkbd.take

end Cons

namespace InputRun

variable {present : Bool}

/-- What holds after every event of a run that never overfills the buffer. -/
structure Faithful (r : InputRun) (unread : List UInt8) : Prop where
  given : r.given = r.taken ++ unread
  holds : r.cons.Unread unread
  nonzero : ∀ c ∈ unread, c ≠ 0

theorem arrivals_nonzero (e : InputEvent) : ∀ c ∈ e.arrivals present, c ≠ 0 := by
  intro c hc
  have hchars : ∀ dev : Device, c ∈ dev.chars → c ≠ 0 := by
    intro dev hdev
    simpa using (List.mem_filter.mp hdev).2
  cases e with
  | serialIntr serial =>
    cases present with
    | false => simp [InputEvent.arrivals] at hc
    | true => exact hchars serial hc
  | kbdIntr kbd => exact hchars kbd hc
  | consGetc serial kbd =>
    rcases List.mem_append.mp hc with hserial | hkbd
    · cases present with
      | false => simp at hserial
      | true => exact hchars serial hserial
    · exact hchars kbd hkbd

theorem taken_consGetc (r : InputRun) (serial kbd : Device) :
    (r.step present (.consGetc serial kbd)).taken =
      r.taken ++ [(r.cons.consGetc present serial kbd).1].filter (fun c => c ≠ 0) :=
  List.filter_append ..

theorem nil_of_headD_eq_zero {q : List UInt8} (hnonzero : ∀ c ∈ q, c ≠ 0)
    (h : q.headD 0 = 0) : q = [] := by
  cases q with
  | nil => rfl
  | cons c q => exact absurd h (hnonzero c List.mem_cons_self)

theorem Faithful.step {r : InputRun} {unread : List UInt8} (h : Faithful r unread)
    (e : InputEvent)
    (hroom : (r.given ++ e.arrivals present).length ≤
      r.taken.length + (consBufSize - 1)) :
    ∃ unread', Faithful (r.step present e) unread' := by
  have hqueue : (unread ++ e.arrivals present).length ≤ consBufSize - 1 := by
    rw [h.given, List.append_assoc, List.length_append] at hroom
    omega
  have hnonzero : ∀ c ∈ unread ++ e.arrivals present, c ≠ 0 := by
    intro c hc
    rcases List.mem_append.mp hc with hold | hnew
    · exact h.nonzero c hold
    · exact arrivals_nonzero e c hnew
  have hgiven : r.given ++ e.arrivals present = r.taken ++ (unread ++ e.arrivals present) := by
    rw [h.given, List.append_assoc]
  cases e with
  | serialIntr serial =>
    refine ⟨_, hgiven, ?_, hnonzero⟩
    exact h.holds.serialIntr present serial (by simpa using hqueue)
  | kbdIntr kbd =>
    refine ⟨_, hgiven, ?_, hnonzero⟩
    exact h.holds.consIntr kbd (by simpa [InputEvent.arrivals] using hqueue)
  | consGetc serial kbd =>
    obtain ⟨hresult, hrest⟩ := h.holds.consGetc present serial kbd hqueue
    generalize unread ++ (InputEvent.consGetc serial kbd).arrivals present = queue at *
    refine ⟨queue.tail, ?_, hrest, fun c hc => hnonzero c (List.mem_of_mem_tail hc)⟩
    rw [taken_consGetc, hresult]
    apply hgiven.trans
    cases queue with
    | nil => simp
    | cons c queue => simp [hnonzero c (by simp)]

theorem run_append (events : List InputEvent) (e : InputEvent) :
    run present (events ++ [e]) = (run present events).step present e := by
  simp [run]

theorem fits_before {events : List InputEvent} {e : InputEvent}
    (h : Fits present (events ++ [e])) : Fits present events := by
  intro before e' after heq
  apply h before e' (after ++ [e])
  simp [heq]

theorem faithful_run (events : List InputEvent) (h : Fits present events) :
    ∃ unread, Faithful (run present events) unread := by
  induction events using List.reverseRecOn with
  | nil => exact ⟨[], rfl, .initial, by simp⟩
  | append_singleton events e ih =>
    obtain ⟨unread, hfaithful⟩ := ih (fits_before h)
    rw [run_append]
    exact hfaithful.step e (h events e [] rfl)

/-- While no more than `CONSBUFSIZE - 1` characters are ever unread, the nonzero
results of `cons_getc` are the characters delivered, in their order; it returns
0 only when all of them have been read, and the indices stay in the buffer. -/
theorem console_input_fifo (events : List InputEvent) (h : Fits present events) :
    (run present events).taken <+: (run present events).given ∧
      (∀ before serial kbd, events = before ++ [.consGetc serial kbd] →
        ((run present before).cons.consGetc present serial kbd).1 = 0 →
        (run present events).taken = (run present events).given) ∧
      (run present events).cons.rpos.toNat < consBufSize ∧
      (run present events).cons.wpos.toNat < consBufSize := by
  obtain ⟨unread, hrun⟩ := faithful_run events h
  refine ⟨⟨unread, hrun.given.symm⟩, ?_, hrun.holds.first_lt, hrun.holds.last_lt⟩
  rintro before serial kbd rfl hzero
  obtain ⟨queue, hbefore⟩ := faithful_run before (fits_before h)
  have hroom := h before (.consGetc serial kbd) [] rfl
  rw [hbefore.given, List.append_assoc, List.length_append] at hroom
  obtain ⟨hresult, -⟩ := hbefore.holds.consGetc present serial kbd (by omega)
  have hgiven : (run present (before ++ [.consGetc serial kbd])).given =
      (run present before).taken ++
        (queue ++ (InputEvent.consGetc serial kbd).arrivals present) := by
    rw [run_append, ← List.append_assoc, ← hbefore.given]
    rfl
  have hnonzero : ∀ c ∈ queue ++ (InputEvent.consGetc serial kbd).arrivals present, c ≠ 0 := by
    intro c hc
    rcases List.mem_append.mp hc with hold | hnew
    · exact hbefore.nonzero c hold
    · exact arrivals_nonzero _ c hnew
  have hnone := nil_of_headD_eq_zero hnonzero (hresult.symm.trans hzero)
  rw [hgiven, hnone, run_append, taken_consGetc, hzero]
  rfl

theorem fits_nil : Fits present [] := by
  intro before e after heq
  simp at heq

theorem fits_concat {events : List InputEvent} (h : Fits present events) (e : InputEvent)
    (hroom : ((run present events).given ++ e.arrivals present).length ≤
      (run present events).taken.length + (consBufSize - 1)) :
    Fits present (events ++ [e]) := by
  intro before e' after heq
  rcases List.eq_nil_or_concat after with rfl | ⟨after, last, rfl⟩
  · obtain ⟨rfl, he⟩ := List.append_inj' heq rfl
    obtain rfl : e = e' := by simpa using he
    exact hroom
  · apply h before e' after
    have hsplit : events ++ [e] = (before ++ e' :: after) ++ [last] := by simp [heq]
    exact (List.append_inj' hsplit rfl).1

/-- Two deliveries, a zero among them, and two reads. -/
theorem console_input_fifo_two_reads :
    let events := ([] ++ [.serialIntr [0x6C, 0, 0x73]]) ++ [.consGetc [] [0x0A]] ++
      [.consGetc [] []]
    Fits true events ∧ (run true events).taken = [0x6C, 0x73] ∧
      (run true events).taken <+: (run true events).given := by
  have hserial := fits_concat (@fits_nil true) (.serialIntr [0x6C, 0, 0x73])
    (by decide)
  have hgetc := fits_concat hserial (.consGetc [] [0x0A]) (by decide)
  have hfits := fits_concat hgetc (.consGetc [] []) (by decide)
  exact ⟨hfits, by decide, (console_input_fifo _ hfits).1⟩

end InputRun

end Jos
