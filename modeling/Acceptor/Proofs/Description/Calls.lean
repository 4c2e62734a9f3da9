import Acceptor.Description.Compile
import Acceptor.Proofs.Automaton.Edit

/-!
# Compiling is editing

A description is compiled by editing operations alone: one call for every name, one for every
transition and one for the start.  `Description.calls` lists them, and `compile_fst` says that the
automaton of a description is what these calls make of the empty one.  Everything that is known of
edited automata therefore holds of compiled ones, also of the drafts on the way, such as the one
that `Description.draft` stops at.
-/

namespace Acceptor.Description

/-- The names of the accepting states of a description. -/
def acceptingNames (d : Description) : Std.ExtTreeSet String :=
  .ofList (d.accepting.map (·.value))

theorem mem_acceptingNames {d : Description} {name : String} :
    name ∈ d.acceptingNames ↔ name ∈ d.accepting.map (·.value) := by
  simp only [acceptingNames]
  rw [Std.ExtTreeSet.mem_ofList, List.contains_iff_mem]

/-- The call that adds a name. -/
def nameCall (accepting : Std.ExtTreeSet String) (name : Token) : Edit :=
  .addState name.value (accepting.contains name.value)

/-- The call that adds a transition. -/
def transitionCall (t : Located Transition) : Edit :=
  .addTransition t.value.source t.value.symbol t.value.target

/-- The call that binds the start. -/
def startCall (name : Token) : Edit := .setStart name.value

/-- The calls that compile a description, in order. -/
def calls (d : Description) : List Edit :=
  (firstOccurrences d.names).map (nameCall d.acceptingNames) ++ d.transitions.map transitionCall ++
    d.start.toList.map startCall

/-! ## A draft is edited by the calls -/

namespace Draft

theorem addName_automaton (accepting : Std.ExtTreeSet String) (draft : Draft) (name : Token) :
    (draft.addName accepting name).automaton =
      (draft.automaton.perform (nameCall accepting name)).2 := by
  simp only [addName, Automaton.perform, nameCall]
  dsimp only [Prod.map]
  split <;> simp_all

theorem addTransition_automaton (draft : Draft) (t : Located Transition) :
    (draft.addTransition t).automaton = (draft.automaton.perform (transitionCall t)).2 := by
  simp only [addTransition, Automaton.perform, transitionCall]
  dsimp only [Prod.map]
  split <;> simp_all

theorem setStart_automaton (draft : Draft) (name : Token) :
    (draft.setStart name).automaton = (draft.automaton.perform (startCall name)).2 := by
  simp only [setStart, Automaton.perform, startCall]
  dsimp only [Prod.map]
  split <;> simp_all

/-- A loop whose steps make one call each makes these calls in order. -/
theorem foldl_automaton {α : Type} {step : Draft → α → Draft} {call : α → Edit}
    (hstep : ∀ draft x, (step draft x).automaton = (draft.automaton.perform (call x)).2)
    (xs : List α) (draft : Draft) :
    (xs.foldl step draft).automaton = draft.automaton.after (xs.map call) := by
  -- the draft that the loop goes on with is the one after the first call
  induction xs generalizing draft with
  | nil => rfl
  | cons x xs ih =>
    rw [List.foldl_cons, ih, hstep]
    rfl

end Draft

/-- The draft with all names of a description and the transitions `ts`. -/
def draft (d : Description) (ts : List (Located Transition)) : Draft :=
  ts.foldl Draft.addTransition
    ((firstOccurrences d.names).foldl (Draft.addName d.acceptingNames) {})

theorem draft_automaton (d : Description) (ts : List (Located Transition)) :
    (d.draft ts).automaton =
      Automaton.empty.after
        ((firstOccurrences d.names).map (nameCall d.acceptingNames) ++ ts.map transitionCall) := by
  simp only [draft]
  rw [Draft.foldl_automaton Draft.addTransition_automaton,
    Draft.foldl_automaton (Draft.addName_automaton d.acceptingNames), Automaton.after_append]

/-- Compiling finishes the draft with all transitions by binding the start. -/
theorem compile_eq (d : Description) :
    d.compile = ((d.start.toList.foldl Draft.setStart (d.draft d.transitions)).automaton,
      (d.start.toList.foldl Draft.setStart (d.draft d.transitions)).found.toList) := rfl

/-- The automaton of a description is what its calls make of the empty one. -/
theorem compile_fst (d : Description) : d.compile.1 = Automaton.empty.after d.calls := by
  rw [compile_eq, Draft.foldl_automaton Draft.setStart_automaton, draft_automaton,
    ← Automaton.after_append]
  rfl

end Acceptor.Description
