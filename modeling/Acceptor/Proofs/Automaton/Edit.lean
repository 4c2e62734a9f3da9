import Acceptor.Automaton.Basic

/-!
# Editing sequences

An `Edit` is one call of an editing operation with its arguments, and `Automaton.after` makes any
number of calls in a row.  A call that is refused is a call like any other: it answers with its
error, and the next one goes on with the automaton it left behind.

The second half says what the three ways in which editing touches the array of states do to a
look-up by id.  Everything else about an automaton that concerns single states (`step`,
`isAccepting`, `nameOf`) is defined through that look-up.

* `get?_setState`      a state is put in the place of another one
* `get?_pushState`     a state is added at the end
* `get?_modifyState`   a state is changed in place
-/

namespace Acceptor

/-! ## Calls and answers -/

/-- A call of an editing operation. -/
inductive Edit
  | addState (name : String) (accepting : Bool)
  | addTransition (source : String) (symbol : Char) (target : String)
  | setStart (name : String)
deriving DecidableEq, Repr

/-- What a call answers that is not refused. -/
inductive Answer
  /-- A state was added. -/
  | added (how : Added)
  /-- An edge was added; it replaces an edge to `previous`, if there was one. -/
  | connected (previous : Option StateId)
  /-- The start was bound. -/
  | started (id : StateId)
deriving DecidableEq, Repr

namespace Automaton

/-- Makes one call. -/
def perform (a : Automaton) : Edit → Edited Answer
  | .addState name accepting => (a.addState name accepting).map (·.map .added) id
  | .addTransition source symbol target =>
    (a.addTransition source symbol target).map (·.map .connected) id
  | .setStart name => (a.setStart name).map (·.map .started) id

/-- The automaton after a sequence of calls. -/
def after (a : Automaton) (edits : List Edit) : Automaton :=
  edits.foldl (fun a edit => (a.perform edit).2) a

theorem after_append (a : Automaton) (edits later : List Edit) :
    a.after (edits ++ later) = (a.after edits).after later :=
  List.foldl_append

end Automaton

/-! ## Look-ups after a change -/

/-- Ids with the same index are the same. -/
theorem StateId.ext {i j : StateId} (h : i.index = j.index) : i = j := by
  cases i
  cases j
  exact (StateId.mk.injEq ..).mpr h

theorem StateId.index_inj {i j : StateId} : i.index = j.index ↔ i = j :=
  ⟨StateId.ext, fun h => h ▸ rfl⟩

/-- The ids are exactly the numbers below the limit. -/
theorem StateId.ofNat?_eq_some_iff {n : Nat} {i : StateId} :
    StateId.ofNat? n = some i ↔ i.index = n := by
  have hi := i.index_lt
  simp only [StateId.ofNat?]
  split
  · rw [Option.some_inj, ← StateId.index_inj]
    exact eq_comm
  · next h =>
    -- the number is too large, but the index of an id is not
    constructor
    · intro he
      exact nomatch he
    · intro he
      exact absurd (he ▸ hi) h

theorem StateId.ofNat?_eq_none_iff {n : Nat} : StateId.ofNat? n = none ↔ stateLimit ≤ n := by
  simp only [StateId.ofNat?]
  split <;> simp <;> omega

namespace Automaton

/-- The automaton with `s` in the place `id`. -/
def setState (a : Automaton) (id : StateId) (s : State) : Automaton :=
  { a with states := a.states.setIfInBounds id.index s }

/-- The automaton with `s` as its last state, found by its name. -/
def pushState (a : Automaton) (id : StateId) (s : State) : Automaton :=
  { a with states := a.states.push s, index := a.index.insert s.name id }

/-- The automaton with the state in the place `id` changed. -/
def modifyState (a : Automaton) (id : StateId) (f : State → State) : Automaton :=
  { a with states := a.states.modify id.index f }

theorem get?_eq_some_iff {a : Automaton} {id : StateId} {s : State} :
    a.get? id = some s ↔ ∃ h : id.index < a.size, a.states[id.index] = s :=
  Array.getElem?_eq_some_iff

/-- There is a state for exactly the ids below the size. -/
theorem exists_get?_iff {a : Automaton} {id : StateId} :
    (∃ s, a.get? id = some s) ↔ id.index < a.size := by
  constructor
  · intro hparts
    obtain ⟨s, hs⟩ := hparts
    exact (get?_eq_some_iff.mp hs).1
  · intro h
    exact ⟨_, get?_eq_some_iff.mpr ⟨h, rfl⟩⟩

theorem get?_setState (a : Automaton) (i j : StateId) (s : State) :
    (a.setState i s).get? j = if i = j then (a.get? j).map fun _ => s else a.get? j := by
  -- comparing ids is comparing indices
  have hindex := @StateId.index_inj i j
  simp only [get?, setState]
  rw [Array.getElem?_setIfInBounds]
  by_cases h : i.index = j.index
  · rw [if_pos h, if_pos (hindex.mp h)]
    split <;> simp_all
  · rw [if_neg h, if_neg (mt hindex.mpr h)]

theorem get?_pushState (a : Automaton) (i j : StateId) (s : State) (hi : i.index = a.size) :
    (a.pushState i s).get? j = if j = i then some s else a.get? j := by
  have hindex := @StateId.index_inj j i
  simp only [get?, pushState]
  -- the new state stands at the old size
  rw [Array.getElem?_push, ← show i.index = a.states.size from hi]
  by_cases h : j.index = i.index
  · rw [if_pos h, if_pos (hindex.mp h)]
  · rw [if_neg h, if_neg (mt hindex.mpr h)]

theorem get?_modifyState (a : Automaton) (i j : StateId) (f : State → State) :
    (a.modifyState i f).get? j = if i = j then (a.get? j).map f else a.get? j := by
  have hindex := @StateId.index_inj i j
  simp only [get?, modifyState]
  rw [Array.getElem?_modify]
  by_cases h : i.index = j.index
  · rw [if_pos h, if_pos (hindex.mp h)]
  · rw [if_neg h, if_neg (mt hindex.mpr h)]

/-! ## The three operations, case by case -/

/-- Adding a state again empties it in its place. -/
theorem addState_of_known {a : Automaton} {name : String} {id : StateId} (accepting : Bool)
    (h : a.stateId? name = some id) :
    a.addState name accepting = (.ok (.replaced id), a.setState id { name, accepting }) := by
  simp only [addState]
  rw [h]
  rfl

/-- A new name gets the first id that is free. -/
theorem addState_of_new {a : Automaton} {name : String} {id : StateId} (accepting : Bool)
    (h : a.stateId? name = none) (hid : id.index = a.size) :
    a.addState name accepting = (.ok (.fresh id), a.pushState id { name, accepting }) := by
  simp only [addState]
  rw [h, StateId.ofNat?_eq_some_iff.mpr hid]
  rfl

/-- A full automaton takes no new name. -/
theorem addState_of_full {a : Automaton} {name : String} (accepting : Bool)
    (h : a.stateId? name = none) (hfull : stateLimit ≤ a.size) :
    a.addState name accepting = (.error .tooManyStates, a) := by
  simp only [addState]
  rw [h, StateId.ofNat?_eq_none_iff.mpr hfull]

/-- An edge between two states changes the first one. -/
theorem addTransition_of_known {a : Automaton} {source target : String} {p q : StateId}
    (symbol : Char) (hp : a.stateId? source = some p) (hq : a.stateId? target = some q) :
    a.addTransition source symbol target =
      (.ok (a.step p symbol), a.modifyState p fun s => (s.connect symbol q).2) := by
  simp only [addTransition]
  rw [hp, hq]
  rfl

@[simp] theorem size_setState (a : Automaton) (i : StateId) (s : State) :
    (a.setState i s).size = a.size :=
  Array.size_setIfInBounds

@[simp] theorem size_pushState (a : Automaton) (i : StateId) (s : State) :
    (a.pushState i s).size = a.size + 1 :=
  Array.size_push _

@[simp] theorem size_modifyState (a : Automaton) (i : StateId) (f : State → State) :
    (a.modifyState i f).size = a.size :=
  Array.size_modify

end Automaton

end Acceptor
