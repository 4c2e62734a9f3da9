import Acceptor.Load
import Acceptor.Proofs.Description.Calls

/-!
# Places do not matter

Descriptions and reports carry places in the source, and nothing but the places of reports depends
on them.  `unplaced` moves everything to the front of the source.  Compiling commutes with it, so
two sources that are read as the same description up to places describe the same automaton and are
reported on in the same words.

* `compile_unplaced`   compiling commutes with forgetting places
* `load_congr`         loading depends on places only in the places of its reports
-/

namespace Acceptor

/-- The value, as if it stood at the front of the source. -/
def Located.unplaced {α : Type} (t : Located α) : Located α := ⟨t.value, .at 0⟩

/-- The note, as if it were about the front of the source; one without a place stays without. -/
def Note.unplaced (n : Note) : Note := { n with span? := n.span?.map fun _ => .at 0 }

/-- The diagnostic with every note of its chain at the front of the source. -/
def Diagnostic.unplaced (d : Diagnostic) : Diagnostic :=
  ⟨d.note.unplaced, d.attached.map Note.unplaced⟩

/-- The log with every entry at the front of the source. -/
def Log.unplaced (log : Log) : Log := { log with entries := log.entries.map Diagnostic.unplaced }

/-- The description with all its parts at the front of the source. -/
def Description.unplaced (d : Description) : Description where
  accepting := d.accepting.map Located.unplaced
  start := d.start.map Located.unplaced
  others := d.others.map Located.unplaced
  transitions := d.transitions.map Located.unplaced
  tests := d.tests.map Located.unplaced

theorem Located.map_value_unplaced {α : Type} (ts : List (Located α)) :
    (ts.map Located.unplaced).map (·.value) = ts.map (·.value) := by
  rw [List.map_map]
  rfl

/-- What is left of located values is their texts. -/
theorem Located.map_unplaced_congr {α : Type} {ts us : List (Located α)}
    (h : ts.map (·.value) = us.map (·.value)) :
    ts.map Located.unplaced = us.map Located.unplaced := by
  have hvalues (vs : List (Located α)) :
      vs.map Located.unplaced = (vs.map (·.value)).map fun v => ⟨v, .at 0⟩ := by
    rw [List.map_map]
    rfl
  rw [hvalues ts, hvalues us, h]

/-! ## Logs -/

theorem Log.unplaced_emit (log : Log) (d : Diagnostic) :
    (log.emit d).unplaced = log.unplaced.emit d.unplaced := by
  simp only [Log.emit, Log.unplaced]
  rw [Array.map_push]
  rfl

theorem Log.unplaced_emitAll (log : Log) (ds : List Diagnostic) :
    (log.emitAll ds).unplaced = log.unplaced.emitAll (ds.map Diagnostic.unplaced) := by
  simp only [Log.emitAll]
  induction ds generalizing log with
  | nil => rfl
  | cons d ds ih =>
    rw [List.foldl_cons, ih, Log.unplaced_emit]
    rfl

/-! ## Compiling -/

namespace Description

theorem names_unplaced (d : Description) : d.unplaced.names = d.names.map Located.unplaced := by
  simp only [names, unplaced]
  cases d.start <;> simp

theorem firstOccurrencesFrom_unplaced (seen : Std.ExtTreeSet String) (kept : Array Token)
    (names : List Token) :
    firstOccurrencesFrom seen (kept.map Located.unplaced) (names.map Located.unplaced) =
      (firstOccurrencesFrom seen kept names).map Located.unplaced := by
  induction names generalizing seen kept with
  | nil => exact Array.toList_map
  | cons name names ih =>
    have hvalue : name.unplaced.value = name.value := rfl
    unfold firstOccurrencesFrom
    rw [List.map_cons]
    dsimp only
    rw [hvalue]
    split
    · exact ih seen kept
    · -- the kept name is moved with the others
      rw [← Array.map_push]
      exact ih ..

theorem firstOccurrences_unplaced (names : List Token) :
    firstOccurrences (names.map Located.unplaced) =
      (firstOccurrences names).map Located.unplaced := by
  simp only [firstOccurrences]
  rw [← firstOccurrencesFrom_unplaced, Array.map_empty]

namespace Draft

/-- The draft with all its reports at the front of the source. -/
def unplaced (draft : Draft) : Draft := { draft with found := draft.found.map Diagnostic.unplaced }

theorem unplaced_addName (accepting : Std.ExtTreeSet String) (draft : Draft) (name : Token) :
    draft.unplaced.addName accepting name.unplaced = (draft.addName accepting name).unplaced := by
  have hautomaton : draft.unplaced.automaton = draft.automaton := rfl
  have hvalue : name.unplaced.value = name.value := rfl
  simp only [addName]
  rw [hautomaton, hvalue]
  cases draft.automaton.addState name.value (accepting.contains name.value) with
  | mk answer a =>
    cases answer with
    | ok how => rfl
    | error e =>
      -- the report about the name moves with it
      simp only [unplaced, Array.map_push]
      rfl

theorem unplaced_addTransition (draft : Draft) (t : Located Transition) :
    draft.unplaced.addTransition t.unplaced = (draft.addTransition t).unplaced := by
  have hautomaton : draft.unplaced.automaton = draft.automaton := rfl
  have hvalue : t.unplaced.value = t.value := rfl
  simp only [addTransition]
  rw [hautomaton, hvalue]
  cases draft.automaton.addTransition t.value.source t.value.symbol t.value.target with
  | mk answer a =>
    cases answer with
    | ok previous =>
      cases previous with
      | none => rfl
      | some id =>
        simp only [unplaced, Array.map_push]
        rfl
    | error e =>
      simp only [unplaced, Array.map_push]
      rfl

theorem unplaced_setStart (draft : Draft) (name : Token) :
    draft.unplaced.setStart name.unplaced = (draft.setStart name).unplaced := by
  have hautomaton : draft.unplaced.automaton = draft.automaton := rfl
  have hvalue : name.unplaced.value = name.value := rfl
  simp only [setStart]
  rw [hautomaton, hvalue]
  cases draft.automaton.setStart name.value with
  | mk answer a =>
    cases answer with
    | ok id => rfl
    | error e =>
      simp only [unplaced, Array.map_push]
      rfl

/-- A loop whose steps commute with forgetting places does so itself. -/
theorem unplaced_foldl {α : Type} {step : Draft → Located α → Draft}
    (hstep : ∀ draft x, step draft.unplaced x.unplaced = (step draft x).unplaced)
    (xs : List (Located α)) (draft : Draft) :
    (xs.map Located.unplaced).foldl step draft.unplaced = (xs.foldl step draft).unplaced := by
  induction xs generalizing draft with
  | nil => rfl
  | cons x xs ih =>
    rw [List.map_cons, List.foldl_cons, List.foldl_cons, hstep]
    exact ih _

end Draft

theorem acceptingNames_unplaced (d : Description) : d.unplaced.acceptingNames = d.acceptingNames :=
  congrArg (Std.ExtTreeSet.ofList ·) (Located.map_value_unplaced d.accepting)

theorem draft_unplaced (d : Description) (ts : List (Located Transition)) :
    d.unplaced.draft (ts.map Located.unplaced) = (d.draft ts).unplaced := by
  have hinitial : Draft.unplaced {} = {} := by
    simp only [Draft.unplaced]
    rw [Array.map_empty]
  -- first the loop over the names, then the one over the transitions
  have hnames := Draft.unplaced_foldl (Draft.unplaced_addName d.acceptingNames)
    (firstOccurrences d.names) {}
  rw [hinitial] at hnames
  simp only [draft]
  rw [acceptingNames_unplaced, names_unplaced, firstOccurrences_unplaced, hnames,
    Draft.unplaced_foldl Draft.unplaced_addTransition]

/-- Compiling looks at places only to report them. -/
theorem compile_unplaced (d : Description) :
    d.unplaced.compile = (d.compile.1, d.compile.2.map Diagnostic.unplaced) := by
  have hstart : d.unplaced.start.toList = d.start.toList.map Located.unplaced := by
    simp only [unplaced]
    cases d.start <;> rfl
  have hdraft := d.draft_unplaced d.transitions
  rw [compile_eq, compile_eq, hstart]
  rw [show d.unplaced.transitions = d.transitions.map Located.unplaced from rfl, hdraft,
    Draft.unplaced_foldl Draft.unplaced_setStart]
  exact congrArg (Prod.mk _) Array.toList_map

/-- Descriptions that are the same up to places describe the same automaton. -/
theorem compile_congr {d d' : Description} (h : d.unplaced = d'.unplaced) :
    d.compile.1 = d'.compile.1 ∧
      d.compile.2.map Diagnostic.unplaced = d'.compile.2.map Diagnostic.unplaced := by
  -- both descriptions compile to what their common form compiles to
  have hcompile := d.compile_unplaced
  rw [h, d'.compile_unplaced] at hcompile
  obtain ⟨hautomaton, hfound⟩ := Prod.mk.inj hcompile
  exact ⟨hautomaton.symm, hfound.symm⟩

theorem map_value_tests_congr {d d' : Description} (h : d.unplaced = d'.unplaced) :
    d.tests.map (·.value) = d'.tests.map (·.value) := by
  rw [← Located.map_value_unplaced d.tests, ← Located.map_value_unplaced d'.tests]
  exact congrArg (fun d : Description => d.tests.map (·.value)) h

end Description

/-! ## Loading -/

/-- Sources that are read as the same description up to places, with the same problems up to
    places, are loaded alike. -/
theorem load_congr {source source' : String} {options options' : Options}
    (hread : (Description.parse source options).1.unplaced =
      (Description.parse source' options').1.unplaced)
    (hproblems : (Description.parse source options).2.map Diagnostic.unplaced =
      (Description.parse source' options').2.map Diagnostic.unplaced) :
    (load source options).automaton = (load source' options').automaton ∧
      (load source options).tests = (load source' options').tests ∧
      (load source options).log.unplaced = (load source' options').log.unplaced := by
  simp only [load]
  generalize Description.parse source options = read at hread hproblems
  generalize Description.parse source' options' = read' at hread hproblems
  obtain ⟨d, problems⟩ := read
  obtain ⟨d', problems'⟩ := read'
  dsimp only at hread hproblems ⊢
  obtain ⟨hautomaton, hfound⟩ := Description.compile_congr hread
  refine ⟨hautomaton, Description.map_value_tests_congr hread, ?_⟩
  rw [Log.unplaced_emitAll, Log.unplaced_emitAll, Log.unplaced_emitAll, Log.unplaced_emitAll,
    hproblems, hfound]

end Acceptor
