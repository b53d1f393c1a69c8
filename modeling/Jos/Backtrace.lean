import Jos.Kdebug
import Jos.Lib.Chain
import Jos.Mmu
import Jos.Printfmt

/-!
`mon_backtrace` of `kern/monitor.c`. The stack is given by the word at each address. What is
printed is given by the calls of `cprintf`.
-/

namespace Jos

structure CprintfCall where
  fmt : CString
  args : List VarArg

def wordArg (w : UInt32) : VarArg := ⟨w, .lit ""⟩

/-- The characters before the first NUL. -/
def upToNul (bytes : List UInt8) : CString :=
  ⟨bytes.takeWhile (· ≠ 0), fun _ hc => by simpa using List.mem_takeWhile_imp hc⟩

def DebugName.text (stabstr : List UInt8) : DebugName → CString
  | .unknown => .lit "<unknown>"
  | .offset strx => upToNul (stabstr.drop strx)

/-- The tables that `debuginfo_eip` chooses for an address. -/
def stabsFor (kern user : StabData) (addr : UInt32) : StabData :=
  if ulim ≤ addr then kern else user

def ebpFormat : CString := .lit "  ebp %08x  eip %08x  args %08x %08x %08x %08x %08x\n"
def infoFormat : CString := .lit "         %s:%d: %.*s+%d\n"

def infoCall (stabstr : List UInt8) (info : Eipdebuginfo) (offset : UInt32) : CprintfCall :=
  ⟨infoFormat, [stringArg (info.eipFile.text stabstr), wordArg (Int32.ofInt info.eipLine).toUInt32,
    wordArg (UInt32.ofNat info.eipFnNamelen), stringArg (info.eipFnName.text stabstr),
    wordArg offset]⟩

/-- `while (0 != ebp)`. The result of `debuginfo_eip` is not looked at. -/
def monBacktraceLoop (fuel : Nat) (kern user : StabData) (word : UInt32 → UInt32) :
    Nat → UInt32 → Except Fault (List CprintfCall)
  | 0, _ => .error .fuel
  | n + 1, ebp =>
    if ebp = 0 then .ok []
    else do
      let eip := word (ebp + 4)
      let (_, info) ← debuginfoEip fuel (stabsFor kern user eip) eip
      let calls ← monBacktraceLoop fuel kern user word n (word ebp)
      return ⟨ebpFormat, [wordArg ebp, wordArg eip, wordArg (word (ebp + 8)),
          wordArg (word (ebp + 12)), wordArg (word (ebp + 16)), wordArg (word (ebp + 20)),
          wordArg (word (ebp + 24))]⟩ ::
        infoCall (stabsFor kern user eip).stabstr info ((eip - info.eipFnAddr) / 8) :: calls

def monBacktrace (fuel : Nat) (kern user : StabData) (word : UInt32 → UInt32) (ebp : UInt32) :
    Except Fault (Int32 × List CprintfCall) := do
  let calls ← monBacktraceLoop fuel kern user word fuel ebp
  return (0, ⟨.lit "Stack backtrace:\n", []⟩ :: calls)

/-- A pointer, with nothing for NULL. -/
def pointer (a : UInt32) : Option UInt32 := if a = 0 then none else some a

/-- The frames whose saved frame pointers lead from `ebp` to 0, the innermost first. -/
def FrameChain (word : UInt32 → UInt32) (ebp : UInt32) (frames : List UInt32) : Prop :=
  Chain (fun a => pointer (word a)) (pointer ebp) frames

/-- What is printed about a frame. -/
structure FrameReport where
  ebp : UInt32
  eip : UInt32
  args : List UInt32
  info : Eipdebuginfo
  offset : UInt32

def FrameReport.calls (kern user : StabData) (f : FrameReport) : List CprintfCall :=
  [⟨ebpFormat, wordArg f.ebp :: wordArg f.eip :: f.args.map wordArg⟩,
    infoCall (stabsFor kern user f.eip).stabstr f.info f.offset]

/-- The report shows the words of its frame, and what is known about its return address. -/
structure FrameReport.Describes (fuel : Nat) (kern user : StabData) (word : UInt32 → UInt32)
    (f : FrameReport) : Prop where
  eip : f.eip = word (f.ebp + 4)
  args : f.args = [word (f.ebp + 8), word (f.ebp + 12), word (f.ebp + 16), word (f.ebp + 20),
    word (f.ebp + 24)]
  info : debuginfoEip fuel (stabsFor kern user f.eip) f.eip = .ok (0, f.info)

/-- The reports of the frames are what is printed. -/
structure Backtrace (fuel : Nat) (kern user : StabData) (word : UInt32 → UInt32) (ebp : UInt32)
    (frames : List UInt32) (reports : List FrameReport) : Prop where
  run : monBacktrace fuel kern user word ebp =
    .ok (0, ⟨.lit "Stack backtrace:\n", []⟩ :: reports.flatMap (·.calls kern user))
  frames : reports.map (·.ebp) = frames
  describes : ∀ f ∈ reports, f.Describes fuel kern user word

section

variable {fuel n : Nat} {kern user : StabData} {word : UInt32 → UInt32} {ebp : UInt32}
  {frames : List UInt32}

theorem pointer_some {a b : UInt32} (h : pointer a = some b) : a = b ∧ a ≠ 0 := by
  unfold pointer at h
  split at h
  · cases h
  · next hne => exact ⟨Option.some.inj h, hne⟩

theorem pointer_none {a : UInt32} (h : pointer a = none) : a = 0 := by
  unfold pointer at h
  split at h
  · next hzero => exact hzero
  · cases h

/-- The loop visits the frames in the order of the chain. -/
theorem monBacktraceLoop_run (hchain : FrameChain word ebp frames) (hn : frames.length < n)
    (hfound : ∀ a ∈ frames, ∃ info,
      debuginfoEip fuel (stabsFor kern user (word (a + 4))) (word (a + 4)) = .ok (0, info)) :
    ∃ reports : List FrameReport, monBacktraceLoop fuel kern user word n ebp =
        .ok (reports.flatMap (·.calls kern user)) ∧
      reports.map (·.ebp) = frames ∧
      ∀ f ∈ reports, f.Describes fuel kern user word ∧
        f.offset = (f.eip - f.info.eipFnAddr) / 8 := by
  induction frames generalizing ebp n with
  | nil =>
    obtain ⟨n, rfl⟩ := Nat.exists_eq_succ_of_ne_zero (Nat.ne_zero_of_lt hn)
    refine ⟨[], ?_, rfl, by simp⟩
    rw [monBacktraceLoop, if_pos (pointer_none hchain)]
    rfl
  | cons a frames ih =>
    obtain ⟨n, rfl⟩ := Nat.exists_eq_succ_of_ne_zero (Nat.ne_zero_of_lt hn)
    obtain ⟨rfl, hne⟩ := pointer_some hchain.1
    obtain ⟨info, hinfo⟩ := hfound ebp List.mem_cons_self
    obtain ⟨reports, hrest, hframes, hall⟩ :=
      ih hchain.2 (Nat.lt_of_succ_lt_succ hn) fun b hb => hfound b (List.mem_cons_of_mem _ hb)
    let report : FrameReport :=
      { ebp
        eip := word (ebp + 4)
        args := [word (ebp + 8), word (ebp + 12), word (ebp + 16), word (ebp + 20),
          word (ebp + 24)]
        info
        offset := (word (ebp + 4) - info.eipFnAddr) / 8 }
    refine ⟨report :: reports, ?_, congrArg (ebp :: ·) hframes, ?_⟩
    · rw [monBacktraceLoop, if_neg hne]
      dsimp only
      rw [hinfo, hrest]
      rfl
    · intro f hf
      rcases List.mem_cons.mp hf with rfl | hf
      · exact ⟨⟨rfl, rfl, hinfo⟩, rfl⟩
      · exact hall f hf

/-- The backtrace says what is known of every frame, once and in order; where it says how far the
return address lies behind the start of the function, it says an eighth of that. -/
theorem monBacktrace_run (hchain : FrameChain word ebp frames) (hfuel : frames.length < fuel)
    (hfound : ∀ a ∈ frames, ∃ info,
      debuginfoEip fuel (stabsFor kern user (word (a + 4))) (word (a + 4)) = .ok (0, info)) :
    ∃ reports, Backtrace fuel kern user word ebp frames reports ∧
      ∀ f ∈ reports, f.offset = (f.eip - f.info.eipFnAddr) / 8 := by
  obtain ⟨reports, hrun, hframes, hall⟩ := monBacktraceLoop_run hchain hfuel hfound
  refine ⟨reports, ⟨?_, hframes, fun f hf => (hall f hf).1⟩, fun f hf => (hall f hf).2⟩
  unfold monBacktrace
  rw [hrun]
  rfl

theorem calls_injective {f g : FrameReport} {fs gs : List CprintfCall}
    (h : f.calls kern user ++ fs = g.calls kern user ++ gs) : f.offset = g.offset ∧ fs = gs := by
  obtain ⟨-, htail⟩ := List.cons.inj h
  obtain ⟨hinfo, hrest⟩ := List.cons.inj htail
  refine ⟨?_, hrest⟩
  have hargs := congrArg CprintfCall.args hinfo
  simp only [infoCall, List.cons.injEq] at hargs
  exact congrArg VarArg.word hargs.2.2.2.2.1

theorem offsets_eq {fs gs : List FrameReport} (hlength : fs.length = gs.length)
    (h : fs.flatMap (·.calls kern user) = gs.flatMap (·.calls kern user)) :
    fs.map (·.offset) = gs.map (·.offset) := by
  induction fs generalizing gs with
  | nil =>
    obtain rfl := List.length_eq_zero_iff.mp hlength.symm
    rfl
  | cons f fs ih =>
    obtain ⟨g, gs, rfl⟩ := List.exists_cons_of_length_eq_add_one hlength.symm
    rw [List.flatMap_cons, List.flatMap_cons] at h
    obtain ⟨hoffset, hrest⟩ := calls_injective h
    rw [List.map_cons, List.map_cons, hoffset, ih (Nat.succ.inj hlength) hrest]

theorem eighth_iff (start eip : UInt32) :
    start + (eip - start) / 8 = eip ↔ start = eip := by
  constructor
  · intro h
    have heighth : (eip - start) / 8 = eip - start := by
      rw [UInt32.eq_sub_iff_add_eq, UInt32.add_comm]
      exact h
    have hnat := congrArg UInt32.toNat heighth
    rw [UInt32.toNat_div] at hnat
    change (eip - start).toNat / 8 = _ at hnat
    have hzero : eip - start = 0 := UInt32.toNat_inj.mp (by
      change _ = 0
      omega)
    rw [hzero] at h
    exact (UInt32.add_zero start).symm.trans h
  · rintro rfl
    simp

theorem reports_eq {fs gs : List FrameReport} (hfs : ∀ f ∈ fs, f.Describes fuel kern user word)
    (hgs : ∀ g ∈ gs, g.Describes fuel kern user word) (hebp : fs.map (·.ebp) = gs.map (·.ebp))
    (hoffset : fs.map (·.offset) = gs.map (·.offset)) : fs = gs := by
  induction fs generalizing gs with
  | nil => exact (List.map_eq_nil_iff.mp hebp.symm).symm
  | cons f fs ih =>
    obtain ⟨g, gs, rfl, hfirst, hrest⟩ := List.map_eq_cons_iff.mp hebp.symm
    obtain ⟨hoff, hoffs⟩ := List.cons.inj hoffset
    have hf := hfs f List.mem_cons_self
    have hg := hgs g List.mem_cons_self
    have heip : f.eip = g.eip := by
      rw [hf.eip, hg.eip, hfirst]
    have hargs : f.args = g.args := by
      rw [hf.args, hg.args, hfirst]
    have hinfo : f.info = g.info := by
      have hfound := hf.info
      rw [heip, hg.info] at hfound
      exact (Prod.mk.inj (Except.ok.inj hfound)).2.symm
    have hsame : f = g := by
      cases f
      cases g
      simp_all
    rw [hsame, ih (fun f hf => hfs f (List.mem_cons_of_mem _ hf))
      (fun g hg => hgs g (List.mem_cons_of_mem _ hg)) hrest.symm hoffs]

/-- What is printed determines the reports. -/
theorem Backtrace.unique {reports reports' : List FrameReport}
    (h : Backtrace fuel kern user word ebp frames reports)
    (h' : Backtrace fuel kern user word ebp frames reports') : reports = reports' := by
  have hebp := h.frames.trans h'.frames.symm
  have hlength : reports.length = reports'.length := by
    simpa using congrArg List.length hebp
  have hcalls := h.run
  rw [h'.run] at hcalls
  have hprinted := (List.cons.inj (Prod.mk.inj (Except.ok.inj hcalls)).2).2
  exact reports_eq h.describes h'.describes hebp (offsets_eq hlength hprinted.symm)

end

/-- The backtrace ends and reports every frame once, in order, with what `debuginfo_eip` finds. The
printed offset leads from the start of the function to the return address exactly when every return
address is itself the start: the offset is divided by 8. -/
theorem backtrace_offsets_iff (fuel : Nat) (kern user : StabData) (word : UInt32 → UInt32)
    (ebp : UInt32) (frames : List UInt32) (hchain : FrameChain word ebp frames)
    (hfuel : frames.length < fuel)
    (hfound : ∀ a ∈ frames, ∃ info,
      debuginfoEip fuel (stabsFor kern user (word (a + 4))) (word (a + 4)) = .ok (0, info)) :
    (frames.Nodup ∧ ∃ reports, Backtrace fuel kern user word ebp frames reports) ∧
    ((∃ reports, Backtrace fuel kern user word ebp frames reports ∧
        ∀ f ∈ reports, f.info.eipFnAddr + f.offset = f.eip) ↔
      ∀ a ∈ frames, ∀ info,
        debuginfoEip fuel (stabsFor kern user (word (a + 4))) (word (a + 4)) = .ok (0, info) →
          info.eipFnAddr = word (a + 4)) := by
  obtain ⟨reports, hback, heighth⟩ := monBacktrace_run hchain hfuel hfound
  refine ⟨⟨hchain.nodup, reports, hback⟩, ?_, ?_⟩
  · rintro ⟨reports', hback', hoffset⟩ a ha info hinfo
    obtain rfl := hback.unique hback'
    rw [← hback.frames] at ha
    obtain ⟨f, hf, rfl⟩ := List.mem_map.mp ha
    have hdescribes := hback.describes f hf
    have hsame := hdescribes.info
    rw [hdescribes.eip, hinfo] at hsame
    obtain rfl := (Prod.mk.inj (Except.ok.inj hsame)).2
    have hright := hoffset f hf
    rw [heighth f hf, eighth_iff, hdescribes.eip] at hright
    exact hright
  · intro hstart
    refine ⟨reports, hback, ?_⟩
    intro f hf
    have hdescribes := hback.describes f hf
    have ha : f.ebp ∈ frames := by
      rw [← hback.frames]
      exact List.mem_map_of_mem hf
    have hinfo := hdescribes.info
    rw [hdescribes.eip] at hinfo
    rw [heighth f hf, eighth_iff, hdescribes.eip]
    exact hstart f.ebp ha f.info hinfo

/-- A kernel with one function, which starts at 0xF0100000. -/
def oneFunction : StabData where
  stabs := [⟨0, 0, 0, 0⟩, ⟨1, nSo, 0, 0xF0100000⟩, ⟨5, nFun, 0, 0xF0100000⟩]
  stabstr := [0, 97, 46, 99, 0, 102, 0]

def oneFunctionInfo : Eipdebuginfo := ⟨.offset 1, -1, .offset 5, 1, 0xF0100000, 0⟩

/-- A stack with one frame. -/
def oneFrame (eip : UInt32) (a : UInt32) : UInt32 := if a = 0xF0109004 then eip else 0

theorem oneFrame_chain (eip : UInt32) : FrameChain (oneFrame eip) 0xF0109000 [0xF0109000] :=
  ⟨rfl, rfl⟩

theorem oneFunction_start :
    debuginfoEip 10 oneFunction 0xF0100000 = .ok (0, oneFunctionInfo) := by
  decide +kernel

theorem oneFunction_inside :
    debuginfoEip 10 oneFunction 0xF0100010 = .ok (0, oneFunctionInfo) := by
  decide +kernel

/-- The return address is the start of the function. -/
theorem backtrace_offsets_iff_start :
    ∃ reports, Backtrace 10 oneFunction oneFunction (oneFrame 0xF0100000) 0xF0109000 [0xF0109000]
        reports ∧
      ∀ f ∈ reports, f.info.eipFnAddr + f.offset = f.eip := by
  refine (backtrace_offsets_iff 10 oneFunction oneFunction (oneFrame 0xF0100000) 0xF0109000 _
    (oneFrame_chain _) (by decide) ?_).2.mpr ?_
  · rw [List.forall_mem_singleton]
    exact ⟨oneFunctionInfo, oneFunction_start⟩
  · rw [List.forall_mem_singleton]
    intro info hinfo
    have hsame := oneFunction_start.symm.trans hinfo
    obtain rfl := (Prod.mk.inj (Except.ok.inj hsame)).2
    rfl

/-- The return address lies 16 bytes behind the start, and the offset is 2. -/
theorem backtrace_offset_wrong :
    FrameChain (oneFrame 0xF0100010) 0xF0109000 [0xF0109000] ∧
    debuginfoEip 10 oneFunction 0xF0100010 = .ok (0, oneFunctionInfo) ∧
    ¬ ∃ reports, Backtrace 10 oneFunction oneFunction (oneFrame 0xF0100010) 0xF0109000
        [0xF0109000] reports ∧
      ∀ f ∈ reports, f.info.eipFnAddr + f.offset = f.eip := by
  refine ⟨oneFrame_chain _, oneFunction_inside, ?_⟩
  rintro ⟨reports, hback, hoffset⟩
  have hfound : ∀ a ∈ [(0xF0109000 : UInt32)], ∃ info, debuginfoEip 10
      (stabsFor oneFunction oneFunction (oneFrame 0xF0100010 (a + 4)))
      (oneFrame 0xF0100010 (a + 4)) = .ok (0, info) := by
    rw [List.forall_mem_singleton]
    exact ⟨oneFunctionInfo, oneFunction_inside⟩
  have hfuel : [(0xF0109000 : UInt32)].length < 10 := by decide
  obtain ⟨reports', hback', heighth⟩ :=
    monBacktrace_run (oneFrame_chain 0xF0100010) hfuel hfound
  obtain rfl := hback.unique hback'
  have hmem : (0xF0109000 : UInt32) ∈ reports.map (·.ebp) := by
    rw [hback.frames]
    exact List.mem_singleton_self _
  obtain ⟨f, hf, hebp⟩ := List.mem_map.mp hmem
  have hdescribes := hback.describes f hf
  have heip : f.eip = 0xF0100010 := by
    rw [hdescribes.eip, hebp]
    rfl
  have hinfo := hdescribes.info
  rw [heip] at hinfo
  have hsame := oneFunction_inside.symm.trans hinfo
  have hright := hoffset f hf
  rw [heighth f hf, eighth_iff, heip, ← (Prod.mk.inj (Except.ok.inj hsame)).2] at hright
  revert hright
  decide

end Jos
