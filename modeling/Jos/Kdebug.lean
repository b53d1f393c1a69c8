import Jos.CString

/-!
The search of the debugging tables: `stab_binsearch` and `debuginfo_eip`. A read
outside of the table of stabs or of the string table is an error. The tables
lie in a 32-bit address space, so their indices do not overflow an `int`.
-/

namespace Jos

structure Stab where
  nStrx : UInt32
  nType : UInt8
  nDesc : UInt16
  nValue : UInt32
deriving DecidableEq

def nFun : UInt8 := 0x24
def nSline : UInt8 := 0x44
def nSo : UInt8 := 0x64
def nSol : UInt8 := 0x84
def nPsym : UInt8 := 0xa0

/-- `stabs[i]` -/
def readStab (stabs : List Stab) (i : Int) : Except Fault Stab :=
  if 0 ≤ i then
    match stabs[i.toNat]? with
    | some stab => .ok stab
    | none => .error .outside
  else .error .outside

/-- `while (m >= l && !stop(stabs[m])) m--;`, where `read` stands for the way to an entry. -/
def seekBackBy (read : Int → Except Fault Stab) (stop : Stab → Bool) (l m : Int) :
    Except Fault Int :=
  if l ≤ m then
    match read m with
    | .error e => .error e
    | .ok stab => if stop stab then .ok m else seekBackBy read stop l (m - 1)
  else .ok m
termination_by (m + 1 - l).toNat

def seekBack (stabs : List Stab) (stop : Stab → Bool) (l m : Int) : Except Fault Int :=
  seekBackBy (readStab stabs) stop l m

theorem seekBack_eq (stabs : List Stab) (stop : Stab → Bool) (l m : Int) :
    seekBack stabs stop l m =
      if l ≤ m then
        match readStab stabs m with
        | .error e => .error e
        | .ok stab => if stop stab then .ok m else seekBack stabs stop l (m - 1)
      else .ok m := by
  rw [seekBack, seekBackBy]
  rfl

def hasType (type : UInt8) (stab : Stab) : Bool :=
  stab.nType = type

/-- The variables of the loop of `stab_binsearch`. -/
structure Search where
  regionLeft : Int
  regionRight : Int
  l : Int
  r : Int
  addr : UInt32
  anyMatches : Bool

/-- One round of the loop, for `l <= r`. -/
def Search.stepBy (read : Int → Except Fault Stab) (type : UInt8) (s : Search) :
    Except Fault Search := do
  let trueM := (s.l + s.r).tdiv 2
  let m ← seekBackBy read (hasType type) s.l trueM
  if m < s.l then return { s with l := trueM + 1 }
  let stab ← read m
  if stab.nValue < s.addr then
    return { s with anyMatches := true, regionLeft := m, l := trueM + 1 }
  else if s.addr < stab.nValue then
    return { s with anyMatches := true, regionRight := m - 1, r := m - 1 }
  else
    return { s with anyMatches := true, regionLeft := m, l := m, addr := s.addr + 1 }

def Search.loopBy (read : Int → Except Fault Stab) (type : UInt8) :
    Nat → Search → Except Fault Search
  | 0, _ => .error .fuel
  | n + 1, s =>
    if s.l ≤ s.r then do
      let s ← s.stepBy read type
      Search.loopBy read type n s
    else .ok s

def stabBinsearchBy (fuel : Nat) (read : Int → Except Fault Stab) (regionLeft regionRight : Int)
    (type : UInt8) (addr : UInt32) : Except Fault (Int × Int) := do
  let s ← Search.loopBy read type fuel
    ⟨regionLeft, regionRight, regionLeft, regionRight, addr, false⟩
  if s.anyMatches then do
    let l ← seekBackBy read (hasType type) (s.regionLeft + 1) s.regionRight
    return (l, s.regionRight)
  else return (s.regionLeft, s.regionLeft - 1)

def Search.step (stabs : List Stab) (type : UInt8) (s : Search) : Except Fault Search :=
  s.stepBy (readStab stabs) type

def Search.loop (stabs : List Stab) (type : UInt8) (n : Nat) (s : Search) : Except Fault Search :=
  Search.loopBy (readStab stabs) type n s

theorem Search.loop_succ (stabs : List Stab) (type : UInt8) (n : Nat) (s : Search) :
    Search.loop stabs type (n + 1) s =
      if s.l ≤ s.r then do
        let s ← s.step stabs type
        Search.loop stabs type n s
      else .ok s := rfl

/-- `stab_binsearch`: the new `*region_left` and `*region_right`. -/
def stabBinsearch (fuel : Nat) (stabs : List Stab) (regionLeft regionRight : Int)
    (type : UInt8) (addr : UInt32) : Except Fault (Int × Int) :=
  stabBinsearchBy fuel (readStab stabs) regionLeft regionRight type addr

theorem stabBinsearch_eq (fuel : Nat) (stabs : List Stab) (regionLeft regionRight : Int)
    (type : UInt8) (addr : UInt32) :
    stabBinsearch fuel stabs regionLeft regionRight type addr = (do
      let s ← Search.loop stabs type fuel
        ⟨regionLeft, regionRight, regionLeft, regionRight, addr, false⟩
      if s.anyMatches then do
        let l ← seekBack stabs (hasType type) (s.regionLeft + 1) s.regionRight
        return (l, s.regionRight)
      else return (s.regionLeft, s.regionLeft - 1)) := rfl

/-- A name in the result: the literal `"<unknown>"`, or an offset into the
string table. -/
inductive DebugName where
  | unknown
  | offset (strx : Nat)
deriving DecidableEq

structure Eipdebuginfo where
  eipFile : DebugName
  eipLine : Int
  eipFnName : DebugName
  eipFnNamelen : Nat
  eipFnAddr : UInt32
  eipFnNarg : Nat
deriving DecidableEq

/-- The tables of the kernel or of a user program. -/
structure StabData where
  stabs : List Stab
  stabstr : List UInt8

/-- `strfind(s, ':') - s` for the string at an offset of the table. -/
def strfindColon (stabstr : List UInt8) (strx : Nat) : Except Fault Nat :=
  match _h : stabstr[strx]? with
  | none => .error .outside
  | some c =>
    if c = 0 ∨ c = ':'.toUInt8 then .ok 0
    else do
      let n ← strfindColon stabstr (strx + 1)
      return n + 1
termination_by stabstr.length - strx
decreasing_by
  have hlt := (List.getElem?_eq_some_iff.mp _h).1
  omega

/-- `strfind(name, ':') - name`; the literal has nine characters. -/
def DebugName.namelen (stabstr : List UInt8) : DebugName → Except Fault Nat
  | .unknown => .ok 9
  | .offset strx => strfindColon stabstr strx

/-- `if (stab.n_strx < stabstr_end - stabstr) name = stabstr + stab.n_strx;` -/
def DebugName.ofStab (stabstr : List UInt8) (stab : Stab) (name : DebugName) : DebugName :=
  if stab.nStrx.toNat < stabstr.length then .offset stab.nStrx.toNat else name

/-- `for (; lline < rfun && stabs[lline].n_type == N_PSYM; lline++)` -/
def countParams (stabs : List Stab) (rfun lline : Int) : Except Fault Nat :=
  if lline < rfun then
    match readStab stabs lline with
    | .error e => .error e
    | .ok stab =>
      if stab.nType = nPsym then do
        let n ← countParams stabs rfun (lline + 1)
        return n + 1
      else .ok 0
  else .ok 0
termination_by (rfun - lline).toNat

/-- The stab that ends the search backwards for the file name. -/
def namesFile (stab : Stab) : Bool :=
  stab.nType = nSol ∨ (stab.nType = nSo ∧ stab.nValue ≠ 0)

/-- What the search for the function leaves behind: its bounds, the name and the
address of the function, and the region and the address for the next search. -/
structure FoundFunction where
  lfun : Int
  rfun : Int
  fnName : DebugName
  fnAddr : UInt32
  addr : UInt32
  lline : Int
  rline : Int

def findFunction (fuel : Nat) (t : StabData) (addr : UInt32) (lfile rfile : Int) :
    Except Fault FoundFunction := do
  let (lfun, rfun) ← stabBinsearch fuel t.stabs lfile rfile nFun addr
  if lfun ≤ rfun then do
    let stab ← readStab t.stabs lfun
    return ⟨lfun, rfun, DebugName.ofStab t.stabstr stab .unknown, stab.nValue,
      addr - stab.nValue, lfun, rfun⟩
  else return ⟨lfun, rfun, .unknown, addr, addr, lfile, rfile⟩

/-- The search for the line: `eip_line`, and the new `lline`. -/
def findLine (fuel : Nat) (t : StabData) (addr : UInt32) (lline rline : Int) :
    Except Fault (Int × Int) := do
  let (lline, rline) ← stabBinsearch fuel t.stabs lline rline nSline addr
  if lline ≤ rline then do
    let stab ← readStab t.stabs lline
    return (stab.nDesc.toNat, lline)
  else return (-1, lline)

/-- The search backwards for `eip_file`. -/
def findFile (t : StabData) (lfile lline : Int) : Except Fault DebugName := do
  let lline ← seekBack t.stabs namesFile lfile lline
  if lfile ≤ lline then do
    let stab ← readStab t.stabs lline
    return DebugName.ofStab t.stabstr stab .unknown
  else return .unknown

/-- The search for the parameters behind the function: `eip_fn_narg`. -/
def findNarg (t : StabData) (lfun rfun : Int) : Except Fault Nat :=
  if lfun < rfun then countParams t.stabs rfun (lfun + 1) else .ok 0

/-- What `debuginfo_eip` does once it has found the file. -/
def debuginfoIn (fuel : Nat) (t : StabData) (addr : UInt32) (lfile rfile : Int) :
    Except Fault Eipdebuginfo := do
  let f ← findFunction fuel t addr lfile rfile
  let fnNamelen ← f.fnName.namelen t.stabstr
  let (line, lline) ← findLine fuel t f.addr f.lline f.rline
  let file ← findFile t lfile lline
  let narg ← findNarg t f.lfun f.rfun
  return ⟨file, line, f.fnName, fnNamelen, f.fnAddr, narg⟩

/-- `debuginfo_eip` on the tables that it has chosen for `addr`: its result, and
what it leaves in `*info`. -/
def debuginfoEip (fuel : Nat) (t : StabData) (addr : UInt32) :
    Except Fault (Int × Eipdebuginfo) := do
  let info : Eipdebuginfo := ⟨.unknown, 0, .unknown, 9, addr, 0⟩
  if t.stabstr.getLast? ≠ some 0 then return (-1, info)
  let (lfile, rfile) ← stabBinsearch fuel t.stabs 0 (t.stabs.length - 1) nSo addr
  if lfile = 0 then return (-1, info)
  let info ← debuginfoIn fuel t addr lfile rfile
  return (0, info)

end Jos
