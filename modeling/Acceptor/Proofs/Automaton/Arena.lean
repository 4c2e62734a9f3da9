import Acceptor.Automaton.Simulator
import Acceptor.Automaton.Table
import Acceptor.Proofs.Automaton.Refinement
import Acceptor.Proofs.Description.Calls

/-!
# The arena

The states of an automaton stand in an array, are found by name through an index, and refer to each
other by their places.  `Automaton.WellFormed` says that these parts fit together.  An automaton
that represents a roster is well-formed, because a roster is, and so every automaton made by editing
is well-formed.

Ids are stable: editing appends to the list of names and never moves a name.  With both facts no id
that any operation of the library comes across points outside the array.
-/

namespace Acceptor

namespace Automaton

/-- The names of the states, in the order of their ids. -/
def names (a : Automaton) : List String := a.states.toList.map State.name

/-- The parts of an automaton fit together. -/
structure WellFormed (a : Automaton) : Prop where
  size_le : a.size ≤ stateLimit
  names_nodup : a.names.Nodup
  /-- The index finds a name at a place exactly if the state there has that name. -/
  stateId?_eq_some_iff : ∀ {name id},
    a.stateId? name = some id ↔ (a.get? id).map State.name = some name
  start_lt : ∀ {id}, a.start = some id → id.index < a.size
  target_lt : ∀ {id s c target},
    a.get? id = some s → s.next? c = some target → target.index < a.size

theorem getElem?_names (a : Automaton) (id : StateId) :
    a.names[id.index]? = (a.get? id).map State.name := by
  simp only [names, get?]
  rw [List.getElem?_map, Array.getElem?_toList]

end Automaton

/-! ## Well-formedness comes from the roster -/

namespace Represents

variable {a : Automaton} {r : Roster}

theorem names_eq (h : Represents a r) : a.names = r.names := by
  have hlength : a.names.length = r.names.length := by
    rw [← h.size_eq]
    exact List.length_map _
  -- the state at a place has the name at that place
  apply List.ext_getElem hlength
  intro i hia hir
  have hlimit : i < stateLimit := Nat.lt_of_lt_of_le hir r.length_le
  obtain ⟨s, hs, hsp⟩ := h.get?_idOf _ (List.getElem_mem hir)
  rw [r.idOf_getElem ⟨i, hlimit⟩ hir] at hs
  have hname := a.getElem?_names ⟨i, hlimit⟩
  rw [hs, List.getElem?_eq_getElem hia, Option.map_some, Option.some_inj] at hname
  exact hname.trans hsp.name_eq

theorem idOf?_lt (h : Represents a r) {o : Option String} {id : StateId}
    (hid : o.bind r.idOf? = some id) : id.index < a.size := by
  obtain ⟨p, -, hp⟩ := Option.bind_eq_some_iff.mp hid
  obtain ⟨hlt, -⟩ := List.getElem?_eq_some_iff.mp (Roster.idOf?_eq_some_iff.mp hp)
  rw [h.size_eq]
  exact hlt

theorem wellFormed (h : Represents a r) : a.WellFormed where
  size_le := h.size_eq ▸ r.length_le
  names_nodup := h.names_eq ▸ r.names_nodup
  stateId?_eq_some_iff {name id} := by
    rw [h.stateId?_eq, Roster.idOf?_eq_some_iff, ← h.names_eq, a.getElem?_names]
  start_lt hid := h.idOf?_lt (h.start_eq ▸ hid)
  target_lt {id s c target} hs hc := by
    obtain ⟨-, -, hsp⟩ := h.exists_name hs
    exact h.idOf?_lt (hsp.next?_eq c ▸ hc)

end Represents

theorem wellFormed_after (edits : List Edit) : (Automaton.empty.after edits).WellFormed :=
  (represents_after edits).wellFormed

/-! ## Ids are stable -/

namespace Roster

/-- A call lists at most one name more, behind the others. -/
theorem names_prefix_perform (r : Roster) (edit : Edit) : r.names <+: (r.perform edit).2.names := by
  cases edit with
  | addState name accepting =>
    show r.names <+: (r.addState name accepting).2.names
    simp only [addState]
    split
    · exact List.prefix_rfl
    · split
      · exact List.prefix_append _ _
      · exact List.prefix_rfl
  | addTransition source symbol target =>
    show r.names <+: (r.addTransition source symbol target).2.names
    simp only [addTransition]
    split
    · split <;> exact List.prefix_rfl
    · exact List.prefix_rfl
  | setStart name =>
    show r.names <+: (r.setStart name).2.names
    simp only [setStart]
    split <;> exact List.prefix_rfl

theorem names_prefix_after (r : Roster) (edits : List Edit) :
    r.names <+: (r.after edits).names := by
  induction edits generalizing r with
  | nil => exact List.prefix_rfl
  | cons edit edits ih => exact (r.names_prefix_perform edit).trans (ih _)

end Roster

/-- A name keeps its id, and the state there keeps its name, whatever is called later. -/
theorem Represents.get?_after {a : Automaton} {r : Roster} (h : Represents a r) {name : String}
    {id : StateId} (hid : a.stateId? name = some id) (later : List Edit) :
    (a.after later).stateId? name = some id ∧
      ∃ s, (a.after later).get? id = some s ∧ s.name = name := by
  have hafter := h.after later
  have hstay : (a.after later).stateId? name = some id := by
    -- on rosters, the old list of names is a prefix of the new one
    rw [h.stateId?_eq, Roster.idOf?_eq_some_iff] at hid
    rw [hafter.stateId?_eq, Roster.idOf?_eq_some_iff]
    obtain ⟨hlt, -⟩ := List.getElem?_eq_some_iff.mp hid
    obtain ⟨new, hnew⟩ := r.names_prefix_after later
    rw [← hnew, List.getElem?_append_left hlt]
    exact hid
  refine ⟨hstay, ?_⟩
  exact Option.map_eq_some_iff.mp (hafter.wellFormed.stateId?_eq_some_iff.mp hstay)

/-! ## No id points outside the array -/

namespace Automaton

theorem exists_get_of_lt {a : Automaton} {id : StateId} (h : id.index < a.size) :
    ∃ s, a.get id = .ok s ∧ a.get? id = some s := by
  obtain ⟨s, hs⟩ := exists_get?_iff.mpr h
  refine ⟨s, ?_, hs⟩
  simp only [get]
  rw [hs]

/-- Counting the states off gives every index once; no number is too large for an id. -/
theorem map_index_ids {a : Automaton} (h : a.size ≤ stateLimit) :
    a.ids.map StateId.index = List.range a.size := by
  simp only [ids]
  rw [List.map_filterMap]
  have hofNat : ∀ n ∈ List.range a.size, (StateId.ofNat? n).map StateId.index = some n := by
    intro n hn
    have hlt : n < stateLimit := Nat.lt_of_lt_of_le (List.mem_range.mp hn) h
    exact congrArg (Option.map StateId.index) (dif_pos hlt)
  rw [List.filterMap_congr hofNat, List.filterMap_some]

namespace WellFormed

variable {a b : Automaton}

/-- The index is determined by the states. -/
theorem eq_of_states_eq (ha : a.WellFormed) (hb : b.WellFormed) (hstates : b.states = a.states)
    (hstart : b.start = a.start) : b = a := by
  have hget : ∀ id, b.get? id = a.get? id := fun id => congrArg (·[id.index]?) hstates
  -- in both automata a name is found exactly where its state stands
  have hindex : b.index = a.index := by
    apply Std.ExtTreeMap.ext_getElem?
    intro name
    apply Option.ext
    intro id
    exact hb.stateId?_eq_some_iff.trans ((hget id).symm ▸ ha.stateId?_eq_some_iff.symm)
  cases a
  cases b
  exact (Automaton.mk.injEq ..).mpr ⟨hstates, hindex, hstart⟩

theorem stateByName?_eq (h : a.WellFormed) {name : String} {id : StateId}
    (hid : a.stateId? name = some id) :
    ∃ s, a.get id = .ok s ∧ a.stateByName? name = some s := by
  obtain ⟨s, hs, -⟩ := Option.map_eq_some_iff.mp (h.stateId?_eq_some_iff.mp hid)
  obtain ⟨t, ht, hts⟩ := exists_get_of_lt (exists_get?_iff.mp ⟨s, hs⟩)
  refine ⟨t, ht, ?_⟩
  simp only [stateByName?]
  rw [hid]
  exact hts

/-- The table shows the name of an existing state for every edge. -/
theorem tableTarget_eq (h : a.WellFormed) {id target : StateId} {s : State} {c : Char}
    (hs : a.get? id = some s) (hc : s.next? c = some target) :
    ∃ t, a.get target = .ok t ∧ a.tableTarget s c = t.name := by
  obtain ⟨t, ht, hts⟩ := exists_get_of_lt (h.target_lt hs hc)
  refine ⟨t, ht, ?_⟩
  simp only [tableTarget, nameOf]
  rw [hc]
  dsimp only
  rw [hts]

theorem step_lt (h : a.WellFormed) {id target : StateId} {c : Char}
    (hc : a.step id c = some target) : target.index < a.size := by
  obtain ⟨s, hs, hsc⟩ := Option.bind_eq_some_iff.mp hc
  exact h.target_lt hs hsc

/-- The state to which an edge led before it was replaced still exists. -/
theorem previous_lt (h : a.WellFormed) {source target : String} {symbol : Char}
    {previous : StateId} (hb : a.addTransition source symbol target = (.ok (some previous), b)) :
    previous.index < b.size := by
  simp only [addTransition] at hb
  split at hb
  · simp at hb
  · next p _ =>
    split at hb
    · simp at hb
    · next q _ =>
      obtain ⟨hanswer, rfl⟩ := Prod.mk.inj hb
      have hsize := a.size_modifyState p fun s => (s.connect symbol q).2
      exact Nat.lt_of_lt_of_eq (h.step_lt (Except.ok.inj hanswer)) hsize.symm

end WellFormed

end Automaton

namespace Simulator

/-- The simulator after some number of steps. -/
def after (s : Simulator) : Nat → Simulator
  | 0 => s
  | n + 1 => s.step.2.after n

/-- A step stays in the same automaton and within its array. -/
theorem step_lt {s : Simulator} (hwf : s.automaton.WellFormed)
    (hlt : s.state.index < s.automaton.size) :
    s.step.2.automaton = s.automaton ∧ s.step.2.state.index < s.automaton.size := by
  simp only [step]
  split
  · exact ⟨rfl, hlt⟩
  · split
    · exact ⟨rfl, hlt⟩
    · split
      · next hnext => exact ⟨rfl, hwf.step_lt hnext⟩
      · exact ⟨rfl, hlt⟩

theorem after_lt {s : Simulator} (hwf : s.automaton.WellFormed)
    (hlt : s.state.index < s.automaton.size) (n : Nat) :
    (s.after n).state.index < s.automaton.size := by
  induction n generalizing s with
  | zero => exact hlt
  | succ n ih =>
    -- the next simulator looks at the same automaton
    obtain ⟨hsame, hstep⟩ := step_lt hwf hlt
    have hnext := ih (s := s.step.2) (hsame.symm ▸ hwf) (hsame.symm ▸ hstep)
    rw [hsame] at hnext
    exact hnext

theorem after_simulate_lt {a : Automaton} (hwf : a.WellFormed) {input : String} {s : Simulator}
    (hs : a.simulate input = .ok s) (n : Nat) : (s.after n).state.index < a.size := by
  simp only [Automaton.simulate] at hs
  split at hs
  · exact nomatch hs
  · next q hq =>
    obtain rfl := Except.ok.inj hs
    exact after_lt hwf (hwf.start_lt hq) n

end Simulator

/-! ## Main result -/

/-- The arena invariant.  After any calls, refused ones included, the automaton is well-formed, it
    is determined by its states and its start, ids are stable under whatever is called later, and
    every look-up that expects a state finds one: by the id of a name, in a run that is stepped
    through, in the table, and for the edges that compiling a description reports as replaced. -/
theorem arena_invariant (edits : List Edit) :
    let a := Automaton.empty.after edits
    a.WellFormed ∧
      (∀ others, (Automaton.empty.after others).states = a.states →
        (Automaton.empty.after others).start = a.start → Automaton.empty.after others = a) ∧
      (∀ name id, a.stateId? name = some id → ∀ later, (a.after later).stateId? name = some id ∧
        ∃ s, (a.after later).get? id = some s ∧ s.name = name) ∧
      a.ids.map StateId.index = List.range a.size ∧
      (∀ name id, a.stateId? name = some id →
        ∃ s, a.get id = .ok s ∧ a.stateByName? name = some s) ∧
      (∀ input s, a.simulate input = .ok s → ∀ n, ∃ t, a.get (s.after n).state = .ok t) ∧
      (∀ id s c target, a.get? id = some s → s.next? c = some target →
        ∃ t, a.get target = .ok t ∧ a.tableTarget s c = t.name) ∧
      ∀ (d : Description) ts (t : Transition) previous b,
        (d.draft ts).automaton.addTransition t.source t.symbol t.target =
          (.ok (some previous), b) → ∃ s, b.get previous = .ok s := by
  intro a
  have hrep := represents_after edits
  have hwf := hrep.wellFormed
  refine ⟨hwf, fun others => hwf.eq_of_states_eq (wellFormed_after others),
    fun name id hid later => hrep.get?_after hid later, Automaton.map_index_ids hwf.size_le,
    fun name id hid => hwf.stateByName?_eq hid, fun input s hs n => ?_,
    fun id s c target hs hc => hwf.tableTarget_eq hs hc, fun d ts t previous b hb => ?_⟩
  · obtain ⟨t, ht, -⟩ := Automaton.exists_get_of_lt (Simulator.after_simulate_lt hwf hs n)
    exact ⟨t, ht⟩
  · -- a draft is edited by calls, like any other automaton
    have hdraft : (d.draft ts).automaton.WellFormed := by
      rw [Description.draft_automaton]
      exact wellFormed_after _
    obtain ⟨s, hs, -⟩ := Automaton.exists_get_of_lt (hdraft.previous_lt hb)
    exact ⟨s, hs⟩

end Acceptor
