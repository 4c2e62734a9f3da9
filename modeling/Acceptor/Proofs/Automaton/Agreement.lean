import Acceptor.Automaton.Trace
import Acceptor.Proofs.Automaton.Refinement

/-!
# Rosters that agree up to the order of their names

The order in which names were registered decides which ids they have, and nothing else.  Two rosters
`Agree` if they have the same names, in whatever order, and say the same about each of them.  Editing
keeps them in agreement, and automata that represent them cannot be told apart by running them: the
verdicts are the same, and so are the traces when the states in them are called by their names.

* `Agree.addTransition`   a transition is added on both sides
* `Agree.run_eq`          verdicts
* `Agree.narrate_eq`      traces in words
-/

namespace Acceptor

/-- The trace of a run in words, line by line. -/
def Automaton.narrate (a : Automaton) (input : String) : Except RunError (List String) :=
  (a.trace input).map fun t => t.events.map (RunEvent.describe a)

namespace RunEvent

variable {a a' : Automaton} {p p' q q' : StateId}

/-! ## Events in words

What is said about a state depends on nothing but its name. -/

theorem describe_started_congr (hp : a.nameOf p = a'.nameOf p') :
    (started p).describe a = (started p').describe a' := by
  unfold describe
  dsimp only
  rw [hp]

theorem describe_consumed_congr (hp : a.nameOf p = a'.nameOf p') (c : Char)
    (hq : a.nameOf q = a'.nameOf q') :
    (consumed p c q).describe a = (consumed p' c q').describe a' := by
  unfold describe
  dsimp only
  rw [hp, hq]

theorem describe_stuck_congr (hp : a.nameOf p = a'.nameOf p') (c : Char) (position : Nat) :
    (stuck p c position).describe a = (stuck p' c position).describe a' := by
  unfold describe
  dsimp only
  rw [hp]

theorem describe_finished_congr (hp : a.nameOf p = a'.nameOf p') (accepted : Bool) :
    (finished p accepted).describe a = (finished p' accepted).describe a' := by
  unfold describe
  dsimp only
  rw [hp]

end RunEvent

/-- The state at a place is called by the name that stands there. -/
theorem Represents.nameOf_eq {a : Automaton} {r : Roster} (h : Represents a r) {id : StateId}
    {p : String} (hp : r.names[id.index]? = some p) : a.nameOf id = p := by
  obtain ⟨hlt, rfl⟩ := List.getElem?_eq_some_iff.mp hp
  obtain ⟨s, hs, hsp⟩ := h.get?_idOf _ (List.getElem_mem hlt)
  rw [r.idOf_getElem id hlt] at hs
  simp only [Automaton.nameOf]
  rw [hs]
  exact hsp.name_eq

namespace Roster

/-- The rosters have the same names and say the same about them, but may list them in different
    orders. -/
structure Agree (r r' : Roster) : Prop where
  mem_names : ∀ p, p ∈ r.names ↔ p ∈ r'.names
  accepting_eq : ∀ p ∈ r.names, r.accepting p = r'.accepting p
  edge_eq : r.edge = r'.edge
  start_eq : r.start = r'.start

/-- Edges lead from registered names to registered names. -/
theorem mem_of_foldlM_edge {r : Roster} {p q : String} (hp : p ∈ r.names) {cs : List Char}
    (h : cs.foldlM r.edge p = some q) : q ∈ r.names := by
  induction cs generalizing p with
  | nil => exact Option.some.inj h ▸ hp
  | cons c cs ih =>
    rw [List.foldlM_cons] at h
    obtain ⟨p', hedge, hrest⟩ := Option.bind_eq_some_iff.mp h
    exact ih (r.edge_mem hedge).2 hrest

namespace Agree

variable {r r' : Roster}

/-! ## Editing -/

/-- A transition is added to both rosters or to neither of them. -/
theorem addTransition (h : r.Agree r') (source : String) (symbol : Char) (target : String) :
    (r.addTransition source symbol target).2.Agree (r'.addTransition source symbol target).2 := by
  simp only [Roster.addTransition]
  by_cases hsource : source ∈ r.names
  · rw [dif_pos hsource, dif_pos ((h.mem_names source).mp hsource)]
    by_cases htarget : target ∈ r.names
    · rw [dif_pos htarget, dif_pos ((h.mem_names target).mp htarget)]
      refine ⟨h.mem_names, h.accepting_eq, ?_, h.start_eq⟩
      simp only [connect]
      rw [h.edge_eq]
    · rw [dif_neg htarget, dif_neg (mt (h.mem_names target).mpr htarget)]
      exact h
  · rw [dif_neg hsource, dif_neg (mt (h.mem_names source).mpr hsource)]
    exact h

/-! ## Running -/

theorem run_eq (h : r.Agree r') (input : String) : r.run input = r'.run input := by
  simp only [Roster.run]
  rw [← h.start_eq, ← h.edge_eq]
  cases hstart : r.start with
  | none => rfl
  | some p =>
    dsimp only
    cases hend : input.toList.foldlM r.edge p with
    | none => rfl
    | some q =>
      -- the run ends at a registered name, so both rosters say the same about it
      have hq : q ∈ r.names := mem_of_foldlM_edge (r.start_mem hstart) hend
      exact congrArg Except.ok (h.accepting_eq q hq)

variable {a a' : Automaton}

/-- A name has an id on either side, and the states there are called alike. -/
theorem nameOf_idOf_eq (ha : Represents a r) (ha' : Represents a' r') {p : String}
    (hp : p ∈ r.names) (hp' : p ∈ r'.names) :
    a.nameOf (r.idOf p hp) = a'.nameOf (r'.idOf p hp') :=
  (ha.nameOf_eq (r.getElem?_idOf p hp)).trans (ha'.nameOf_eq (r'.getElem?_idOf p hp')).symm

/-- From a name on, the same things happen on both sides. -/
theorem map_describe_traceFrom (h : r.Agree r') (ha : Represents a r) (ha' : Represents a' r')
    (p : String) (hp : p ∈ r.names) (hp' : p ∈ r'.names) (position : Nat) (cs : List Char) :
    (r.traceFrom p hp position cs).events.map (RunEvent.describe a) =
      (r'.traceFrom p hp' position cs).events.map (RunEvent.describe a') := by
  have hname : a.nameOf (r.idOf p hp) = a'.nameOf (r'.idOf p hp') := nameOf_idOf_eq ha ha' hp hp'
  -- both runs stand at the same name throughout, at ids of their own
  induction cs generalizing p position with
  | nil =>
    simp only [Roster.traceFrom, List.map_cons, List.map_nil]
    rw [RunEvent.describe_finished_congr hname, h.accepting_eq p hp]
  | cons c cs ih =>
    cases hq : r.edge p c with
    | none =>
      have hq' : r'.edge p c = none := h.edge_eq ▸ hq
      rw [traceFrom_of_none hp position cs hq, traceFrom_of_none hp' position cs hq']
      exact congrArg (fun line => [line]) (RunEvent.describe_stuck_congr hname c position)
    | some q =>
      have hq' : r'.edge p c = some q := h.edge_eq ▸ hq
      have hmem := (r.edge_mem hq).2
      have hmem' := (r'.edge_mem hq').2
      have hnext : a.nameOf (r.idOf q hmem) = a'.nameOf (r'.idOf q hmem') :=
        nameOf_idOf_eq ha ha' hmem hmem'
      rw [traceFrom_of_some hp position cs hq, traceFrom_of_some hp' position cs hq']
      exact congrArg₂ List.cons (RunEvent.describe_consumed_congr hname c hnext)
        (ih q hmem hmem' _ hnext)

/-- Automata that represent agreeing rosters tell the same about their runs. -/
theorem narrate_eq (h : r.Agree r') (ha : Represents a r) (ha' : Represents a' r')
    (input : String) : a.narrate input = a'.narrate input := by
  simp only [Automaton.narrate]
  rw [ha.trace_eq, ha'.trace_eq]
  cases hstart : r.start with
  | none =>
    rw [trace_of_none input hstart, trace_of_none input (h.start_eq ▸ hstart)]
    rfl
  | some p =>
    have hstart' : r'.start = some p := h.start_eq ▸ hstart
    have hp := r.start_mem hstart
    have hp' := r'.start_mem hstart'
    have hname : a.nameOf (r.idOf p hp) = a'.nameOf (r'.idOf p hp') :=
      nameOf_idOf_eq ha ha' hp hp'
    rw [trace_of_some input hstart, trace_of_some input hstart']
    exact congrArg Except.ok (congrArg₂ List.cons (RunEvent.describe_started_congr hname)
      (h.map_describe_traceFrom ha ha' p hp hp' 0 input.toList))

end Agree

end Roster

end Acceptor
