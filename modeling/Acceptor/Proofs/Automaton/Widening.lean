import Acceptor.Proofs.Automaton.Course

/-!
# One edge more

An edge that is added where there was none can only be taken by a run that was stuck there before.
`Automaton.Widened` says what such an edge changes: one entry of the step function, and nothing else
that a run looks at.  Two runs of the two automata on one input go side by side until the run
without the edge ends.  Either both of them end there, or it was stuck at the place of the new edge;
then the other run takes the edge and goes on, and what happens to it from there on, be it that it
takes the edge again, does not concern the part that both of them have in common.

* `widened_addTransition`     what adding an edge changes
* `Widened.runs`              two runs side by side
* `Widened.traces`            and their traces
* `addTransition_keeps_runs`  adding an edge, or failing to
-/

namespace Acceptor

/-- Connecting a state changes one of its edges. -/
theorem State.next?_connect (s : State) (c d : Char) (target : StateId) :
    (s.connect c target).2.next? d = if d = c then some target else s.next? d := by
  have hinsert : (s.connect c target).2.next? d =
      if compare c d = .eq then some target else s.next? d :=
    Std.ExtTreeMap.getElem?_insert
  rw [hinsert]
  simp only [Std.LawfulEqCmp.compare_eq_iff_eq, eq_comm (a := c)]

namespace Automaton

variable {a b : Automaton} {p q : StateId} {c : Char}

/-- `b` is `a` with an edge on `c` from `p` to `q`, where `a` has none. -/
structure Widened (a b : Automaton) (p : StateId) (c : Char) (q : StateId) : Prop where
  start_eq : b.start = a.start
  isAccepting_eq : ∀ id, b.isAccepting id = a.isAccepting id
  step_eq_none : a.step p c = none
  step_eq_some : b.step p c = some q
  step_eq : ∀ id d, (id, d) ≠ (p, c) → b.step id d = a.step id d

/-- Connecting a state on a symbol it had no edge on. -/
theorem widened_modifyState {s : State} (hs : a.get? p = some s) (hc : a.step p c = none)
    (q : StateId) : a.Widened (a.modifyState p fun s => (s.connect c q).2) p c q := by
  have hget (id : StateId) := a.get?_modifyState p id fun s => (s.connect c q).2
  refine ⟨rfl, fun id => ?_, hc, ?_, fun id d hid => ?_⟩
  · -- the flag of the changed state stays
    simp only [isAccepting]
    rw [hget]
    by_cases hid : p = id
    · rw [if_pos hid]
      cases a.get? id <;> rfl
    · rw [if_neg hid]
  · simp only [step]
    rw [hget, if_pos rfl, hs, Option.map_some, Option.bind_some, State.next?_connect, if_pos rfl]
  · simp only [step]
    rw [hget]
    split
    · next heq =>
      -- of the changed state, another symbol
      have hd : d ≠ c := fun hd => hid (by rw [heq, hd])
      cases a.get? id with
      | none => rfl
      | some t =>
        rw [Option.map_some, Option.bind_some, Option.bind_some, State.next?_connect, if_neg hd]
    · rfl

/-- Adding an edge where there was none. -/
theorem widened_addTransition (hwf : a.WellFormed) {source target : String}
    (h : (a.addTransition source c target).1 = .ok none) :
    ∃ p q, a.stateId? source = some p ∧ a.stateId? target = some q ∧
      a.Widened (a.addTransition source c target).2 p c q := by
  -- both names are known, or the call would have failed
  cases hp : a.stateId? source with
  | none => simp [addTransition, hp] at h
  | some p =>
    cases hq : a.stateId? target with
    | none => simp [addTransition, hp, hq] at h
    | some q =>
      rw [addTransition_of_known c hp hq] at h ⊢
      obtain ⟨s, hs, -⟩ := Option.map_eq_some_iff.mp (hwf.stateId?_eq_some_iff.mp hp)
      exact ⟨p, q, rfl, rfl, widened_modifyState hs (Except.ok.inj h) q⟩

/-- Something happens last in every run. -/
theorem eventsFrom_ne_nil (a : Automaton) (r : StateId) (position : Nat) (cs : List Char) :
    a.eventsFrom r position cs ≠ [] := by
  cases cs with
  | nil => simp [eventsFrom]
  | cons c cs =>
    rw [eventsFrom]
    split <;> simp

theorem getLast?_cons_eventsFrom (a : Automaton) (e : RunEvent) (r : StateId) (position : Nat)
    (cs : List Char) :
    (e :: a.eventsFrom r position cs).getLast? = (a.eventsFrom r position cs).getLast? := by
  rw [List.getLast?_cons, List.getLast?_eq_some_getLast (a.eventsFrom_ne_nil r position cs),
    Option.getD_some]

namespace Widened

/-! ## Two runs side by side -/

/-- From any state on, the two runs are the same and not stuck where the new edge is, or the run
    without the edge is stuck there and the other one takes it. -/
theorem runs (h : a.Widened b p c q) (r : StateId) (position : Nat) (cs : List Char) :
    (b.eventsFrom r position cs = a.eventsFrom r position cs ∧
        b.follow? r cs = a.follow? r cs ∧
        ∀ place, (a.eventsFrom r position cs).getLast? ≠ some (.stuck p c place)) ∨
      ∃ front place rest,
        a.eventsFrom r position cs = front ++ [.stuck p c place] ∧
        b.eventsFrom r position cs =
          front ++ .consumed p c q :: b.eventsFrom q (place + c.utf8Size) rest ∧
        a.follow? r cs = none := by
  induction cs generalizing r position with
  | nil =>
    left
    simp only [eventsFrom, follow?_nil, h.isAccepting_eq]
    simp
  | cons d cs ih =>
    by_cases hedge : (r, d) = (p, c)
    · -- the run without the edge ends here
      obtain ⟨rfl, rfl⟩ := Prod.mk.inj hedge
      right
      refine ⟨[], position, cs, ?_, ?_, ?_⟩
      · exact eventsFrom_cons_of_none h.step_eq_none position cs
      · exact eventsFrom_cons_of_some h.step_eq_some position cs
      · rw [follow?_cons, h.step_eq_none, Option.bind_none]
    · have hstep : b.step r d = a.step r d := h.step_eq r d hedge
      rw [follow?_cons, follow?_cons, hstep]
      cases hnext : a.step r d with
      | none =>
        -- both runs are stuck, but not where the new edge is
        left
        rw [eventsFrom_cons_of_none hnext, eventsFrom_cons_of_none (hstep.trans hnext)]
        refine ⟨rfl, rfl, fun place hstuck => hedge ?_⟩
        rw [List.getLast?_singleton, Option.some_inj] at hstuck
        injection hstuck with hr hd
        rw [hr, hd]
      | some s =>
        -- both runs go on with the same edge
        rw [eventsFrom_cons_of_some hnext, eventsFrom_cons_of_some (hstep.trans hnext),
          Option.bind_some, Option.bind_some, getLast?_cons_eventsFrom]
        rcases ih s (position + d.utf8Size) with
          ⟨hevents, hfollow, hlast⟩ | ⟨front, place, rest, ha, hb, hnone⟩
        · left
          exact ⟨congrArg _ hevents, hfollow, hlast⟩
        · right
          refine ⟨.consumed r d s :: front, place, rest, ?_, ?_, hnone⟩
          · rw [ha, List.cons_append]
          · rw [hb, List.cons_append]

/-- The traces of the two automata on one input, which both give the verdicts of their runs.  They
    are the same, or the one without the edge ends where the edge begins, and the other one takes it
    there; and what was accepted still is. -/
theorem traces (h : a.Widened b p c q) {start : StateId} (hstart : a.start = some start)
    (input : String) :
    ∃ t t', a.trace input = .ok t ∧ b.trace input = .ok t' ∧
      a.run input = .ok t.accepted ∧ b.run input = .ok t'.accepted ∧
      ((∀ place, t.events.getLast? ≠ some (.stuck p c place)) → t' = t) ∧
      (∀ place, t.events.getLast? = some (.stuck p c place) →
        t.events.dropLast ++ [.consumed p c q] <+: t'.events) ∧
      (t.accepted = true → t'.accepted = true) := by
  have hstart' : b.start = some start := h.start_eq.trans hstart
  refine ⟨_, _, trace_of_start hstart, trace_of_start hstart', run_of_start input hstart,
    run_of_start input hstart', ?_⟩
  dsimp only
  rw [getLast?_cons_eventsFrom]
  rcases h.runs start 0 input.toList with
    ⟨hevents, hfollow, hlast⟩ | ⟨front, place, rest, ha, hb, hnone⟩
  · have haccepted : (b.follow? start input.toList).any b.isAccepting =
        (a.follow? start input.toList).any a.isAccepting := by
      rw [hfollow, funext h.isAccepting_eq]
    rw [hevents, haccepted]
    exact ⟨fun _ => rfl, fun place hstuck => absurd hstuck (hlast place), id⟩
  · rw [ha, hb, hnone]
    refine ⟨fun hlast => absurd ?_ (hlast place), fun place' _ => ?_, fun haccepted => ?_⟩
    · exact List.getLast?_concat
    · -- what follows the new edge is left out
      refine ⟨b.eventsFrom q (place + c.utf8Size) rest, ?_⟩
      rw [← List.cons_append, List.dropLast_concat]
      simp
    · exact absurd haccepted Bool.false_ne_true

end Widened

/-! ## Calls that fail -/

/-- A call that fails adds no edge. -/
theorem addTransition_of_error {source target : String} {e : BuildError}
    (h : (a.addTransition source c target).1 = .error e) :
    (a.addTransition source c target).2 = a := by
  simp only [addTransition] at h ⊢
  split
  · rfl
  · next p hp =>
    split
    · rfl
    · next q hq =>
      rw [hp] at h
      dsimp only at h
      simp [hq] at h

end Automaton

/-! ## Main result -/

/-- Adding a transition keeps runs as they are.  If the call found no edge to replace, a run that
    was not stuck at the place of the new edge has the trace it had before; the trace of one that
    was is the same up to there and goes on with the new edge; and so whatever was accepted still
    is.  If the call fails, all runs stay what they were. -/
theorem addTransition_keeps_runs (edits : List Edit) (source : String) (symbol : Char)
    (target : String) :
    let a := Automaton.empty.after edits
    let b := (a.addTransition source symbol target).2
    ((a.addTransition source symbol target).1 = .ok none →
      ∃ p q, a.stateId? source = some p ∧ a.stateId? target = some q ∧
        ∀ start, a.start = some start → ∀ input,
          ∃ t t', a.trace input = .ok t ∧ b.trace input = .ok t' ∧
            a.run input = .ok t.accepted ∧ b.run input = .ok t'.accepted ∧
            ((∀ place, t.events.getLast? ≠ some (.stuck p symbol place)) → t' = t) ∧
            (∀ place, t.events.getLast? = some (.stuck p symbol place) →
              t.events.dropLast ++ [.consumed p symbol q] <+: t'.events) ∧
            (t.accepted = true → t'.accepted = true)) ∧
    ∀ e, (a.addTransition source symbol target).1 = .error e →
      ∀ input, b.trace input = a.trace input ∧ b.run input = a.run input := by
  intro a b
  refine ⟨fun hadded => ?_, fun e hfailed input => ?_⟩
  · obtain ⟨p, q, hp, hq, hwidened⟩ :=
      Automaton.widened_addTransition (wellFormed_after edits) hadded
    exact ⟨p, q, hp, hq, fun start hstart input => hwidened.traces hstart input⟩
  · have hsame : b = a := Automaton.addTransition_of_error hfailed
    rw [hsame]
    exact ⟨rfl, rfl⟩

end Acceptor
