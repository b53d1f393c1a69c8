import Jos.ConsoleInput

/-!
What the circular buffer holds when the devices deliver more characters between two reads
than fit into it.
-/

namespace Jos

namespace Cons

/-- How far the write index is ahead of the read index. -/
def distance (s : Cons) : Nat :=
  (s.wpos.toNat + consBufSize - s.rpos.toNat) % consBufSize

/-- The part of `cons_getc` that polls the devices. -/
def poll (serialExists : Bool) (serial kbd : Device) (s : Cons) : Cons :=
  (s.serialIntr serialExists serial).kbdIntr kbd

structure InRange (s : Cons) : Prop where
  rpos : s.rpos.toNat < consBufSize
  wpos : s.wpos.toNat < consBufSize

/-- `q` was stored since the state was `s`, and nothing was read. -/
structure Stored (s : Cons) (q : List UInt8) (t : Cons) : Prop where
  rpos : t.rpos = s.rpos
  written : Ring.Written consBufSize t.buf s.wpos.toNat t.wpos.toNat q

variable {s t : Cons} {q : List UInt8} {present : Bool}

theorem Stored.refl (h : s.InRange) : Stored s [] s :=
  ⟨rfl, .nil _ h.wpos⟩

theorem Stored.put (h : Stored s q t) (c : UInt8) : Stored s (q ++ [c]) (t.put c) := by
  rw [put_eq]
  constructor
  · exact h.rpos
  · change Ring.Written _ _ _ (if _ then _ else _ : UInt32).toNat _
    rw [wrap_toNat h.written.last_lt]
    exact h.written.push c

theorem Stored.consIntr (h : Stored s q t) (dev : Device) :
    Stored s (q ++ dev.chars) (t.consIntr dev) := by
  induction dev generalizing t q with
  | nil => simpa [Cons.consIntr, Device.chars] using h
  | cons c dev ih =>
    rw [Cons.consIntr]
    split
    · next hzero =>
      have hskip : Device.chars (c :: dev) = Device.chars dev := by
        simp [Device.chars, hzero]
      rw [hskip]
      exact ih h
    · next hzero =>
      have hkeep : q ++ Device.chars (c :: dev) = q ++ [c] ++ Device.chars dev := by
        simp [Device.chars, hzero]
      rw [hkeep]
      exact ih (h.put c)

theorem Stored.serialIntr (h : Stored s q t) (present : Bool) (dev : Device) :
    Stored s (q ++ (InputEvent.serialIntr dev).arrivals present) (t.serialIntr present dev) := by
  unfold Cons.serialIntr InputEvent.arrivals
  cases present with
  | false => simpa using h
  | true => exact h.consIntr dev

theorem Stored.poll (h : Stored s q t) (present : Bool) (serial kbd : Device) :
    Stored s (q ++ (InputEvent.consGetc serial kbd).arrivals present)
      (t.poll present serial kbd) := by
  have harrivals : (InputEvent.consGetc serial kbd).arrivals present =
      (InputEvent.serialIntr serial).arrivals present ++ kbd.chars := rfl
  rw [harrivals, ← List.append_assoc]
  exact (h.serialIntr present serial).consIntr kbd

theorem Stored.inRange (h : Stored s q t) (hs : s.InRange) : t.InRange := by
  constructor
  · rw [h.rpos]
    exact hs.rpos
  · exact h.written.last_lt

theorem InRange.take (h : s.InRange) : s.take.2.InRange := by
  rw [take_eq]
  constructor
  · change (if _ then _ else _ : UInt32).toNat < _
    rw [wrap_toNat h.rpos, Ring.next_eq h.rpos]
    exact Nat.mod_lt _ (by decide)
  · exact h.wpos

theorem InRange.consGetc (h : s.InRange) (serial kbd : Device) :
    (s.consGetc present serial kbd).2.InRange := by
  have hpoll : (s.poll present serial kbd).InRange :=
    ((Stored.refl h).poll present serial kbd).inRange h
  unfold Cons.consGetc
  dsimp only
  split
  · exact hpoll.take
  · exact hpoll

theorem distance_spec (h : s.InRange) :
    s.wpos.toNat = (s.rpos.toNat + s.distance) % consBufSize := by
  have hr := h.rpos
  have hw := h.wpos
  have hsum : s.rpos.toNat + (s.wpos.toNat + consBufSize - s.rpos.toNat) =
      s.wpos.toNat + consBufSize := by omega
  unfold distance
  rw [Nat.add_mod_mod, hsum, Nat.add_mod_right, Nat.mod_eq_of_lt hw]

/-- After a burst the buffer keeps only as much of it as the distance of the indices says. -/
theorem Stored.unread (h : Stored s q t) (hs : s.InRange) (hburst : consBufSize - 1 < q.length) :
    t.Unread (q.drop (q.length - (s.distance + q.length) % consBufSize)) := by
  have hlt : (s.distance + q.length) % consBufSize < consBufSize := Nat.mod_lt _ (by decide)
  have hsize : 0 < consBufSize := by decide
  apply Ring.Written.holds h.written (h.inRange hs).rpos hlt
  · rw [h.written.last, distance_spec hs, h.rpos, Nat.mod_add_mod, Nat.add_assoc,
      Nat.add_mod_mod]
  · omega

end Cons

/-- A call of one of the interrupt handlers, not a read. -/
def InputEvent.IsInterrupt : InputEvent → Prop
  | .serialIntr _ => True
  | .kbdIntr _ => True
  | .consGetc _ _ => False

namespace InputRun

/-- The nonzero characters that the devices deliver in `burst`, and when the `cons_getc` that
follows polls them. -/
def delivered (serialExists : Bool) (burst : List InputEvent) (serial kbd : Device) :
    List UInt8 :=
  burst.flatMap (InputEvent.arrivals serialExists) ++
    (InputEvent.consGetc serial kbd).arrivals serialExists

/-- `k` reads while the devices have nothing more. -/
def quietReads (k : Nat) : List InputEvent := List.replicate k (.consGetc [] [])

/-- The first read after the burst does not return 0, and it and the reads that follow return
at least `CONSBUFSIZE - 1` characters of the burst, in their order. -/
def KeepsBurst (serialExists : Bool) (before burst : List InputEvent) (serial kbd : Device) :
    Prop :=
  ((run serialExists (before ++ burst)).cons.consGetc serialExists serial kbd).1 ≠ 0 ∧
    ∃ k reads kept,
      (run serialExists (before ++ burst ++ .consGetc serial kbd :: quietReads k)).results =
        (run serialExists (before ++ burst)).results ++ reads ∧
      List.Sublist kept reads ∧
      List.Sublist kept (delivered serialExists burst serial kbd) ∧
      consBufSize - 1 ≤ kept.length

variable {present : Bool} {r : InputRun} {q : List UInt8}

theorem run_append_list (events more : List InputEvent) :
    run present (events ++ more) = more.foldl (step present) (run present events) := by
  unfold run
  rw [List.foldl_append]

theorem step_inRange (h : r.cons.InRange) (e : InputEvent) :
    (r.step present e).cons.InRange := by
  cases e with
  | serialIntr serial => exact ((Cons.Stored.refl h).serialIntr present serial).inRange h
  | kbdIntr kbd => exact ((Cons.Stored.refl h).consIntr kbd).inRange h
  | consGetc serial kbd => exact h.consGetc serial kbd

theorem run_inRange (events : List InputEvent) : (run present events).cons.InRange := by
  induction events using List.reverseRecOn with
  | nil =>
    have hinitial : Cons.initial.InRange := ⟨by decide, by decide⟩
    exact hinitial
  | append_singleton events e ih =>
    rw [run_append]
    exact step_inRange ih e

theorem stored_burst {s : Cons} (h : Cons.Stored s q r.cons) (burst : List InputEvent)
    (hburst : ∀ e ∈ burst, e.IsInterrupt) :
    Cons.Stored s (q ++ burst.flatMap (InputEvent.arrivals present))
      (burst.foldl (step present) r).cons := by
  induction burst generalizing r q with
  | nil => simpa using h
  | cons e burst ih =>
    have hrest : ∀ e ∈ burst, e.IsInterrupt := fun e he => hburst e (List.mem_cons_of_mem _ he)
    rw [List.foldl_cons, List.flatMap_cons, ← List.append_assoc]
    cases e with
    | serialIntr serial =>
      exact ih (r := r.step present (.serialIntr serial)) (h.serialIntr present serial) hrest
    | kbdIntr kbd => exact ih (r := r.step present (.kbdIntr kbd)) (h.consIntr kbd) hrest
    | consGetc serial kbd => exact (hburst _ List.mem_cons_self).elim

/-- The reads of a buffer that nothing is added to: first its characters, then zeros. -/
theorem results_quiet (present : Bool) (h : r.cons.Unread q) (k : Nat) :
    ((quietReads k).foldl (step present) r).results =
      r.results ++ (q.take k ++ List.replicate (k - q.length) 0) := by
  induction k generalizing r q with
  | zero => simp [quietReads]
  | succ k ih =>
    have hnone : q ++ (InputEvent.consGetc [] []).arrivals present = q := by
      cases present <;> simp [InputEvent.arrivals, Device.chars]
    have hroom := h.room
    obtain ⟨hresult, hrest⟩ := h.consGetc present [] [] (by rw [hnone]; omega)
    rw [hnone] at hresult hrest
    have hstep := ih (r := r.step present (.consGetc [] [])) hrest
    have hresults : (r.step present (.consGetc [] [])).results = r.results ++ [q.headD 0] := by
      rw [← hresult]
      rfl
    change ((quietReads k).foldl (step present) (r.step present (.consGetc [] []))).results = _
    rw [hstep, hresults]
    cases q with
    | nil => simp [List.replicate_succ]
    | cons c q => simp

/-- The buffer's share of the burst: its latest characters. -/
def latest (serialExists : Bool) (before burst : List InputEvent) (serial kbd : Device) :
    List UInt8 :=
  let all := delivered serialExists burst serial kbd
  all.drop (all.length -
    ((run serialExists before).cons.distance + all.length) % consBufSize)

section

variable {burst : List InputEvent} {serial kbd : Device}

theorem delivered_nonzero : ∀ c ∈ delivered present burst serial kbd, c ≠ 0 := by
  intro c hc
  rcases List.mem_append.mp hc with hburst | hpoll
  · obtain ⟨e, -, he⟩ := List.mem_flatMap.mp hburst
    exact arrivals_nonzero e c he
  · exact arrivals_nonzero _ c hpoll

theorem latest_length (before : List InputEvent)
    (hlong : consBufSize - 1 < (delivered present burst serial kbd).length) :
    (latest present before burst serial kbd).length =
      ((run present before).cons.distance + (delivered present burst serial kbd).length) %
        consBufSize := by
  have hsize : 0 < consBufSize := by decide
  have hlt := Nat.mod_lt ((run present before).cons.distance +
    (delivered present burst serial kbd).length) hsize
  unfold latest
  rw [List.length_drop]
  omega

/-- A read with its poll is a quiet read of the buffer after the poll. -/
theorem step_poll (r : InputRun) (serial kbd : Device) :
    r.step present (.consGetc serial kbd) =
      step present ⟨r.cons.poll present serial kbd,
        r.given ++ (InputEvent.consGetc serial kbd).arrivals present, r.results⟩
        (.consGetc [] []) := by
  have hnone : (InputEvent.consGetc [] []).arrivals present = [] := by
    cases present <;> rfl
  have hgetc : (r.cons.poll present serial kbd).consGetc present [] [] =
      r.cons.consGetc present serial kbd := by
    cases present <;> rfl
  unfold step
  dsimp only
  rw [hnone, hgetc, List.append_nil]

theorem unread_latest (before : List InputEvent) (hburst : ∀ e ∈ burst, e.IsInterrupt)
    (hlong : consBufSize - 1 < (delivered present burst serial kbd).length) :
    ((run present (before ++ burst)).cons.poll present serial kbd).Unread
      (latest present before burst serial kbd) := by
  have hrange : (run present before).cons.InRange := run_inRange before
  have hstored : Cons.Stored (run present before).cons
      ([] ++ burst.flatMap (InputEvent.arrivals present))
      (burst.foldl (step present) (run present before)).cons :=
    stored_burst (Cons.Stored.refl hrange) burst hburst
  rw [List.nil_append] at hstored
  rw [run_append_list]
  exact (hstored.poll present serial kbd).unread hrange hlong

/-- The reads after a burst: what the buffer kept of it, then zeros. -/
theorem results_burst (before : List InputEvent) (hburst : ∀ e ∈ burst, e.IsInterrupt)
    (hlong : consBufSize - 1 < (delivered present burst serial kbd).length) (k : Nat) :
    (run present (before ++ burst ++ .consGetc serial kbd :: quietReads k)).results =
      (run present (before ++ burst)).results ++
        ((latest present before burst serial kbd).take (k + 1) ++
          List.replicate (k + 1 - (latest present before burst serial kbd).length) 0) := by
  have hunread := unread_latest before hburst hlong
  have hquiet := results_quiet present (r := ⟨_, (run present (before ++ burst)).given ++
    (InputEvent.consGetc serial kbd).arrivals present,
    (run present (before ++ burst)).results⟩) hunread (k + 1)
  rw [run_append_list, List.foldl_cons, step_poll]
  exact hquiet

theorem first_result (before : List InputEvent) (hburst : ∀ e ∈ burst, e.IsInterrupt)
    (hlong : consBufSize - 1 < (delivered present burst serial kbd).length) :
    ((run present (before ++ burst)).cons.consGetc present serial kbd).1 =
      (latest present before burst serial kbd).headD 0 := by
  have hresults := results_burst before hburst hlong 0
  rw [run_append_list] at hresults
  change (run present (before ++ burst)).results ++
    [((run present (before ++ burst)).cons.consGetc present serial kbd).1] = _ at hresults
  have hlast := List.append_cancel_left hresults
  cases hlatest : latest present before burst serial kbd with
  | nil => simpa [hlatest] using hlast
  | cons c rest => simpa [hlatest] using hlast

/-- How many characters of the burst the reads return cannot exceed what the buffer kept. -/
theorem kept_length_le {kept : List UInt8} {k : Nat} {q : List UInt8}
    (hreads : List.Sublist kept (q ++ List.replicate k 0)) (hnonzero : ∀ c ∈ kept, c ≠ 0) :
    kept.length ≤ q.length := by
  have hfilter := hreads.filter (fun c => c ≠ 0)
  have hkept : kept.filter (fun c => c ≠ 0) = kept := by
    apply List.filter_eq_self.mpr
    simpa using hnonzero
  have hzeros : (List.replicate k (0 : UInt8)).filter (fun c => c ≠ 0) = [] := by
    simp
  rw [hkept, List.filter_append, hzeros, List.append_nil] at hfilter
  exact hfilter.length_le.trans (List.length_filter_le _ q)

/-- After a burst that is longer than the buffer, `CONSBUFSIZE - 1` of its characters can be
read exactly when the write index stops right behind the read index. In every other place
the buffer looks less full than it was, and empty when the indices meet. -/
theorem keepsBurst_iff (present : Bool) (before burst : List InputEvent) (serial kbd : Device)
    (hburst : ∀ e ∈ burst, e.IsInterrupt)
    (hlong : consBufSize - 1 < (delivered present burst serial kbd).length) :
    KeepsBurst present before burst serial kbd ↔
      ((run present before).cons.distance + (delivered present burst serial kbd).length) %
        consBufSize = consBufSize - 1 := by
  have hsize : 0 < consBufSize := by decide
  have hlt := Nat.mod_lt ((run present before).cons.distance +
    (delivered present burst serial kbd).length) hsize
  have hlength := latest_length before hlong
  constructor
  · rintro ⟨-, k, reads, kept, hresults, hread, hkept, hmany⟩
    rw [results_burst _ hburst hlong] at hresults
    obtain rfl := List.append_cancel_left hresults
    have hle := kept_length_le hread fun c hc =>
      delivered_nonzero c (hkept.subset hc)
    rw [List.length_take] at hle
    omega
  · intro hfull
    have hsub : List.Sublist (latest present before burst serial kbd)
        (delivered present burst serial kbd) := List.drop_sublist _ _
    constructor
    · rw [first_result _ hburst hlong]
      cases hlatest : latest present before burst serial kbd with
      | nil =>
        rw [hlatest, hfull] at hlength
        exact absurd hlength (by decide)
      | cons c rest =>
        apply delivered_nonzero
        apply hsub.subset
        rw [hlatest]
        exact List.mem_cons_self
    · refine ⟨consBufSize - 2, _, latest present before burst serial kbd,
        results_burst _ hburst hlong _, ?_, hsub, by omega⟩
      rw [List.take_of_length_le (by omega)]
      exact List.sublist_append_left _ _

theorem delivered_replicate (n : Nat) :
    delivered true [.kbdIntr (List.replicate n 0x41)] [] [] = List.replicate n 0x41 := by
  simp [delivered, InputEvent.arrivals, Device.chars]

/-- Two rounds of the buffer less one. -/
theorem keepsBurst_iff_two_rounds :
    KeepsBurst true [] [.kbdIntr (List.replicate 1023 0x41)] [] [] := by
  have hdelivered := delivered_replicate 1023
  refine (keepsBurst_iff true [] [.kbdIntr (List.replicate 1023 0x41)] [] [] ?_ ?_).mpr ?_
  · rintro e he
    obtain rfl := List.mem_singleton.mp he
    trivial
  · rw [hdelivered, List.length_replicate]
    decide
  · rw [hdelivered, List.length_replicate]
    decide

/-- A burst as long as the buffer leaves it empty: the next read returns 0. -/
theorem burst_lost :
    consBufSize - 1 < (delivered true [.kbdIntr (List.replicate 512 0x41)] [] []).length ∧
      ¬ KeepsBurst true [] [.kbdIntr (List.replicate 512 0x41)] [] [] := by
  have hdelivered := delivered_replicate 512
  have hlong : consBufSize - 1 <
      (delivered true [.kbdIntr (List.replicate 512 0x41)] [] []).length := by
    rw [hdelivered, List.length_replicate]
    decide
  have hburst : ∀ e ∈ [InputEvent.kbdIntr (List.replicate 512 0x41)], e.IsInterrupt := by
    rintro e he
    obtain rfl := List.mem_singleton.mp he
    trivial
  have hlatest : latest true [] [.kbdIntr (List.replicate 512 0x41)] [] [] = [] := by
    apply List.length_eq_zero_iff.mp
    rw [latest_length _ hlong, hdelivered, List.length_replicate]
    decide
  refine ⟨hlong, ?_⟩
  rintro ⟨hfirst, -⟩
  rw [first_result _ hburst hlong, hlatest] at hfirst
  exact hfirst rfl

end

end InputRun

end Jos
