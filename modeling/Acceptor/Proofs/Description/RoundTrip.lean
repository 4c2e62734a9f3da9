import Acceptor.Load
import Acceptor.Proofs.Automaton.Arena
import Acceptor.Proofs.Description.Compile
import Acceptor.Proofs.Description.Outline
import Acceptor.Proofs.Description.Transition

/-!
# What is written is loaded

A `Plan` is an automaton together with its tests as a user has them in mind, said by names only.
Written in the sectioned layout, every transition in the delimited form, it is loaded without any
report, and what is loaded is the automaton that was planned.  No name, symbol or test string is
special: names may look like keys, markers or spellings of the empty string, symbols may be commas,
and test strings may look like sections.

* `Plan.load_source`   the round trip
-/

namespace Acceptor

open Text (IsWord IsLine isBlank)

/-- An automaton and strings to run it on, by names. -/
structure Plan where
  names : List String
  start : String
  accepting : List String
  transitions : List Transition
  tests : List String
  names_nodup : names.Nodup
  length_le : names.length ≤ stateLimit
  isWord_names : ∀ n ∈ names, IsWord n
  comma_not_mem : ∀ n ∈ names, ',' ∉ n.toList
  start_mem : start ∈ names
  accepting_mem : ∀ n ∈ accepting, n ∈ names
  transitions_mem : ∀ t ∈ transitions, t.source ∈ names ∧ t.target ∈ names
  symbol_not_blank : ∀ t ∈ transitions, isBlank t.symbol = false
  /-- No two transitions are for the same state and symbol. -/
  deterministic : transitions.Pairwise fun t u => t.source = u.source → t.symbol ≠ u.symbol
  isLine_tests : ∀ l ∈ tests, l = "" ∨ IsLine l ∧ l ∉ epsilonSpellings

namespace Plan

/-- A test string as it is written; the empty one is spelled out. -/
def writeTest (l : String) : String := if l = "" then "~" else l

theorem isDelimitable (p : Plan) {n : String} (hn : n ∈ p.names) : Transition.IsDelimitable n :=
  ⟨(p.isWord_names n hn).ne_empty, p.comma_not_mem n hn⟩

/-- A transition is written as one word. -/
theorem isWord_delimited (p : Plan) {t : Transition} (ht : t ∈ p.transitions) :
    IsWord t.delimited := by
  obtain ⟨hsource, htarget⟩ := p.transitions_mem t ht
  constructor
  · -- the commas are there in any case
    intro h
    have hchars := t.toList_delimited
    rw [h] at hchars
    simp at hchars
  · intro c hc
    rw [Transition.toList_delimited, List.mem_append, List.mem_cons, List.mem_cons,
      List.mem_cons] at hc
    rcases hc with hc | rfl | rfl | rfl | hc
    · exact (p.isWord_names _ hsource).not_blank c hc
    · decide
    · exact p.symbol_not_blank t ht
    · decide
    · exact (p.isWord_names _ htarget).not_blank c hc

theorem isLine_writeTest (p : Plan) {l : String} (hl : l ∈ p.tests) : IsLine (writeTest l) := by
  simp only [writeTest]
  split
  · decide
  · next hne => exact ((p.isLine_tests l hl).resolve_left hne).1

/-- The words and lines of a plan. -/
def outline (p : Plan) : Outline where
  accepting := p.accepting
  start := [p.start]
  others := p.names
  transitions := p.transitions.map Transition.delimited
  tests := p.tests.map writeTest
  isWord_accepting n hn := p.isWord_names n (p.accepting_mem n hn)
  isWord_start n hn := p.isWord_names n (List.mem_singleton.mp hn ▸ p.start_mem)
  isWord_others := p.isWord_names
  isWord_transitions := by
    intro w hw
    obtain ⟨t, ht, rfl⟩ := List.mem_map.mp hw
    exact p.isWord_delimited ht
  isLine_tests := by
    intro l hl
    obtain ⟨t, ht, rfl⟩ := List.mem_map.mp hl
    exact p.isLine_writeTest ht
  start_ne_nil := List.cons_ne_nil _ _

/-- A plan written in the sectioned layout. -/
def source (p : Plan) (closed : Bool) : String := p.outline.sectionedSource closed

/-! ## Reading a plan -/

theorem read?_delimited (p : Plan) {t : Transition} (ht : t ∈ p.transitions) :
    Transition.read? t.delimited = some t := by
  obtain ⟨hsource, htarget⟩ := p.transitions_mem t ht
  simp only [Transition.read?]
  rw [Transition.delimited?_eq_some_iff.mpr
    ⟨rfl, p.isDelimitable hsource, p.isDelimitable htarget⟩]
  rfl

theorem filterMap_read?_transitions (p : Plan) :
    p.outline.transitions.filterMap Transition.read? = p.transitions := by
  show (p.transitions.map Transition.delimited).filterMap Transition.read? = p.transitions
  rw [List.filterMap_map]
  calc p.transitions.filterMap (Transition.read? ∘ Transition.delimited)
    _ = p.transitions.filterMap some := List.filterMap_congr fun t ht => p.read?_delimited ht
    _ = p.transitions := List.filterMap_some

/-- A written test string stands for the string it was written for. -/
theorem testText_writeTest (p : Plan) {l : String} (hl : l ∈ p.tests) :
    testText (writeTest l) = l := by
  unfold testText writeTest
  by_cases hempty : l = ""
  · -- the empty string is spelled out and read back
    rw [if_pos hempty, if_pos (by decide)]
    exact hempty.symm
  · have hplain := ((p.isLine_tests l hl).resolve_left hempty).2
    rw [if_neg hempty, if_neg hplain]

theorem map_testText_tests (p : Plan) : p.outline.tests.map testText = p.tests := by
  show (p.tests.map writeTest).map testText = p.tests
  rw [List.map_map]
  calc p.tests.map (testText ∘ writeTest)
    _ = p.tests.map id := List.map_congr_left fun l hl => p.testText_writeTest hl
    _ = p.tests := List.map_id _

variable {p : Plan}

/-- Nothing is reported about the words of a written plan. -/
theorem problems_eq_nil (w : p.outline.Placed) (form : String) :
    w.problems Transition.read? form = [] := by
  have hstart : w.start.map (·.value) = [p.start] := w.map_start
  have hextra : Description.extraStartWords w.start = [] := by
    obtain ⟨token, htoken, -⟩ := List.map_eq_singleton_iff.mp hstart
    rw [htoken]
    rfl
  have hdecoded : ∀ v ∈ w.transitions.map (·.value), (Transition.read? v).isSome = true := by
    intro v hv
    rw [w.map_transitions] at hv
    obtain ⟨t, ht, rfl⟩ := List.mem_map.mp hv
    rw [p.read?_delimited ht]
    rfl
  simp only [Outline.Placed.problems]
  rw [hextra, Description.malformedTransitions_eq_nil hdecoded, List.append_nil]

/-! ## Compiling a plan -/

/-- The description that a written plan is read as. -/
def description (w : p.outline.Placed) : Description :=
  w.description Transition.read? testString

theorem value_transitions (w : p.outline.Placed) :
    (description w).transitions.map (·.value) = p.transitions := by
  show (Description.readTransitions Transition.read? w.transitions).map (·.value) = _
  rw [Description.map_value_readTransitions, w.map_transitions, filterMap_read?_transitions]

theorem value_start (w : p.outline.Placed) :
    (description w).start.map (·.value) = some p.start := by
  show w.start.head?.map (·.value) = _
  rw [← List.head?_map, w.map_start]
  rfl

theorem value_tests (w : p.outline.Placed) :
    (description w).tests.map (·.value) = p.tests := by
  show (w.tests.map testString).map (·.value) = _
  rw [map_value_testString, w.map_tests, map_testText_tests]

/-- The names are the planned ones, in some order. -/
theorem distinctNames_perm (w : p.outline.Placed) :
    (description w).distinctNames.Perm p.names := by
  rw [List.perm_ext_iff_of_nodup (description w).nodup_distinctNames p.names_nodup]
  intro n
  have hothers : (description w).others.map (·.value) = p.names := w.map_others
  have haccepting : (description w).accepting.map (·.value) = p.accepting := w.map_accepting
  have hstart : n ∈ (description w).start.toList.map (·.value) ↔ n = p.start := by
    rw [← Option.toList_map, value_start, Option.toList_some, List.mem_singleton]
  rw [Description.mem_distinctNames]
  simp only [Description.names]
  rw [List.map_append, List.map_append, List.mem_append, List.mem_append, hstart, haccepting,
    hothers]
  constructor
  · intro hmem
    rcases hmem with (hn | hn) | hn
    · exact hn ▸ p.start_mem
    · exact p.accepting_mem n hn
    · exact hn
  · exact .inr

theorem length_distinctNames_le (w : p.outline.Placed) :
    (description w).distinctNames.length ≤ stateLimit :=
  (distinctNames_perm w).length_eq ▸ p.length_le

theorem registered_eq (w : p.outline.Placed) :
    (description w).registered = (description w).distinctNames :=
  List.take_of_length_le (length_distinctNames_le w)

theorem mem_registered_iff (w : p.outline.Placed) {n : String} :
    n ∈ (description w).registered ↔ n ∈ p.names := by
  rw [registered_eq]
  exact (distinctNames_perm w).mem_iff

theorem compile_snd_description (w : p.outline.Placed) : (description w).compile.2 = [] := by
  apply Description.compile_snd_eq_nil (length_distinctNames_le w)
  · intro t ht
    rw [value_transitions] at ht
    rw [(distinctNames_perm w).mem_iff, (distinctNames_perm w).mem_iff]
    exact p.transitions_mem t ht
  · rw [value_transitions]
    exact p.deterministic

/-! ## Main result -/

/-- A plan that was written is loaded as it was meant. -/
theorem load_source (p : Plan) (closed : Bool) {options : Options}
    (hlayout : options.layout ≠ .legacy) :
    let loaded := load (p.source closed) options
    loaded.log = .empty ∧ loaded.tests = p.tests ∧ loaded.automaton.names.Perm p.names ∧
      (∀ n, loaded.automaton.HasAccepting n ↔ n ∈ p.accepting) ∧
      (∀ n, loaded.automaton.StartsAt n ↔ n = p.start) ∧
      ∀ s c t, loaded.automaton.HasEdge s c t ↔ ⟨s, c, t⟩ ∈ p.transitions := by
  intro loaded
  obtain ⟨w, hread⟩ := p.outline.exists_parse_sectionedSource closed hlayout
  -- neither reading nor compiling reports anything
  have hloaded : loaded = ⟨(description w).compile.1, p.tests, .empty⟩ := by
    show load (p.outline.sectionedSource closed) options = _
    simp only [load]
    rw [hread, problems_eq_nil]
    dsimp only
    rw [show w.description Transition.read? testString = description w from rfl,
      compile_snd_description, value_tests]
    rfl
  -- what names see of the automaton is what the roster of the description says
  have hrep := (description w).represents_compile
  rw [hloaded]
  refine ⟨rfl, rfl, ?_, fun n => ?_, fun n => ?_, fun s c t => ?_⟩
  · rw [hrep.names_eq, Description.names_roster, registered_eq]
    exact distinctNames_perm w
  · have haccepting : (description w).accepting.map (·.value) = p.accepting := w.map_accepting
    rw [hrep.hasAccepting_iff, Description.names_roster]
    constructor
    · intro hparts
      obtain ⟨hn, hflag⟩ := hparts
      exact haccepting ▸ (Description.accepting_roster hn).mp hflag
    · intro hn
      have hmem := (mem_registered_iff w).mpr (p.accepting_mem n hn)
      exact ⟨hmem, (Description.accepting_roster hmem).mpr (haccepting.symm ▸ hn)⟩
  · rw [hrep.startsAt_iff, Description.start_roster, value_start, Option.some_inj]
    exact eq_comm
  · have hmem : ∀ t ∈ p.transitions, t.source ∈ (description w).registered ∧
        t.target ∈ (description w).registered := by
      intro t ht
      rw [mem_registered_iff, mem_registered_iff]
      exact p.transitions_mem t ht
    rw [hrep.hasEdge_iff, Description.edge_roster, value_transitions,
      Roster.lastTarget?_eq_some_iff hmem p.deterministic]

/-- A plan with names that look like the marker, a key and a spelling of the empty string, with a
    comma as a symbol, and with test strings that look like sections. -/
def sample : Plan where
  names := ["%dfa", "start:", "~"]
  start := "~"
  accepting := ["start:"]
  transitions := [⟨"~", ',', "start:"⟩, ⟨"start:", 'é', "%dfa"⟩, ⟨"%dfa", ':', "%dfa"⟩]
  tests := ["", "tests:", ", é"]
  names_nodup := by decide
  length_le := by decide
  isWord_names := by decide
  comma_not_mem := by decide
  start_mem := by decide
  accepting_mem := by decide
  transitions_mem := by decide
  symbol_not_blank := by decide
  deterministic := by decide
  isLine_tests := by decide

theorem load_source_sample :
    (load (sample.source true) {}).log = .empty ∧
      (load (sample.source true) {}).tests = ["", "tests:", ", é"] ∧
      (load (sample.source true) {}).automaton.HasEdge "~" ',' "start:" := by
  have hlayout : ({} : Options).layout ≠ .legacy := by decide
  obtain ⟨hlog, htests, -, -, -, hedge⟩ := load_source sample true hlayout
  exact ⟨hlog, htests, (hedge "~" ',' "start:").mpr (by decide)⟩

end Plan

end Acceptor
