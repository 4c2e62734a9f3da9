import Acceptor.Proofs.Description.Outline
import Acceptor.Proofs.Description.Transition
import Acceptor.Proofs.Description.UnplacedReading

/-!
# The layouts agree

What both layouts can express means the same in both.  Reading an outline gives its words, with
places that depend on the layout, and the two layouts differ in how they decode transitions and test
strings.  On transitions of three characters and on test strings that are no spelling of the empty
one they decode alike, so the descriptions are the same up to places, and with them everything that
is loaded.
-/

namespace Acceptor

namespace Description

/-- Only the texts of the words are decoded. -/
theorem readTransitions_congr {read? read?' : String → Option Transition} {words : List Token}
    (h : ∀ w ∈ words.map (·.value), read? w = read?' w) :
    readTransitions read? words = readTransitions read?' words := by
  simp only [readTransitions]
  apply List.filterMap_congr
  intro word hword
  rw [h _ (List.mem_map_of_mem hword)]

end Description

/-- Lines that do not spell the empty string stand for themselves. -/
theorem map_testString_eq_self {lines : List Token}
    (h : ∀ l ∈ lines.map (·.value), l ∉ epsilonSpellings) : lines.map testString = lines := by
  calc lines.map testString
    _ = lines.map id := List.map_congr_left fun l hl => if_neg (h _ (List.mem_map_of_mem hl))
    _ = lines := List.map_id lines

namespace Outline

variable {o : Outline}

/-- The words of an outline are the same wherever they stand. -/
theorem Placed.description_unplaced (p q : o.Placed) {read? read?' : String → Option Transition}
    {test test' : Token → Token} (hread : ∀ w ∈ o.transitions, read? w = read?' w)
    (htest : p.tests.map test = p.tests) (htest' : q.tests.map test' = q.tests) :
    (p.description read? test).unplaced = (q.description read?' test').unplaced := by
  have hcongr {ts us : List Token} {texts : List String} (hts : ts.map (·.value) = texts)
      (hus : us.map (·.value) = texts) :
      ts.map Located.unplaced = us.map Located.unplaced :=
    Located.map_unplaced_congr (hts.trans hus.symm)
  have hstart : p.start.head?.map Located.unplaced = q.start.head?.map Located.unplaced := by
    rw [← List.head?_map, hcongr p.map_start q.map_start, List.head?_map]
  -- decoding and forgetting places can be done in either order
  have htransitions :
      (Description.readTransitions read? p.transitions).map Located.unplaced =
        (Description.readTransitions read?' q.transitions).map Located.unplaced := by
    rw [Description.readTransitions_congr (p.map_transitions.symm ▸ hread),
      Description.readTransitions_unplaced, hcongr p.map_transitions q.map_transitions,
      ← Description.readTransitions_unplaced]
  unfold description Description.unplaced
  dsimp only
  rw [hcongr p.map_accepting q.map_accepting, hstart, hcongr p.map_others q.map_others,
    htransitions, htest, htest', hcongr p.map_tests q.map_tests]

theorem Placed.problems_unplaced (p q : o.Placed) {read? read?' : String → Option Transition}
    {form form' : String} (hread : ∀ w ∈ o.transitions, (read? w).isSome = true)
    (hread' : ∀ w ∈ o.transitions, (read?' w).isSome = true) :
    (p.problems read? form).map Diagnostic.unplaced =
      (q.problems read?' form').map Diagnostic.unplaced := by
  have hstart : p.start.map Located.unplaced = q.start.map Located.unplaced :=
    Located.map_unplaced_congr (p.map_start.trans q.map_start.symm)
  simp only [problems]
  rw [Description.malformedTransitions_eq_nil (p.map_transitions.symm ▸ hread),
    Description.malformedTransitions_eq_nil (q.map_transitions.symm ▸ hread'), List.append_nil,
    List.append_nil, Description.extraStartWords_unplaced, hstart,
    ← Description.extraStartWords_unplaced]

/-- Both layouts say the same about an outline that both can express: the automaton and the tests
    are equal, and the reports differ in nothing but their places. -/
theorem layouts_agree (o : Outline) (haccepting : o.accepting ≠ [])
    (htransitions : o.transitions ≠ []) (hthree : ∀ w ∈ o.transitions, w.length = 3)
    (hothers : ∀ w, o.others.head? = some w → w.length ≠ 3)
    (htests : ∀ t ∈ o.tests, t ∉ epsilonSpellings) {legacy sectioned : Options}
    (hlegacy : legacy.layout = .legacy ∨
      legacy.layout = .auto ∧ o.accepting ≠ [sectionedMarker])
    (hsectioned : sectioned.layout ≠ .legacy) (closed closed' : Bool) :
    let l := load (o.legacySource closed) legacy
    let s := load (o.sectionedSource closed') sectioned
    l.automaton = s.automaton ∧ l.tests = s.tests ∧ l.log.unplaced = s.log.unplaced := by
  obtain ⟨p, hp⟩ :=
    o.exists_parse_legacySource closed hlegacy haccepting htransitions hthree hothers
  obtain ⟨q, hq⟩ := o.exists_parse_sectionedSource closed' hsectioned
  have hcompact : ∀ w ∈ o.transitions, (Transition.compact? w).isSome = true :=
    fun w hw => Transition.isSome_compact?_iff.mpr (hthree w hw)
  have hread : ∀ w ∈ o.transitions, Transition.compact? w = Transition.read? w :=
    fun w hw => (Transition.read?_of_length_eq_three (hthree w hw)).symm
  -- the descriptions and the reports of reading agree up to places, and so does everything else
  apply load_congr
  · rw [hp, hq]
    have hself : q.tests.map testString = q.tests :=
      map_testString_eq_self (q.map_tests.symm ▸ htests)
    exact p.description_unplaced q hread (List.map_id _) hself
  · rw [hp, hq]
    exact p.problems_unplaced q hcompact fun w hw => hread w hw ▸ hcompact w hw

/-- An outline with a name that nothing defines, a comma as a symbol, a word too many for the start,
    and an edge that is given twice. -/
def sample : Outline where
  accepting := ["1", "1"]
  start := ["0", "start"]
  others := ["q2"]
  transitions := ["0,1", "0,0", "1a9"]
  tests := [",", "a b"]
  isWord_accepting := by decide
  isWord_start := by decide
  isWord_others := by decide
  isWord_transitions := by decide
  isLine_tests := by decide
  start_ne_nil := by decide

theorem layouts_agree_sample :
    (load (sample.legacySource true) {}).automaton =
        (load (sample.sectionedSource false) {}).automaton ∧
      (load (sample.legacySource true) {}).tests =
        (load (sample.sectionedSource false) {}).tests ∧
      (load (sample.legacySource true) {}).log.unplaced =
        (load (sample.sectionedSource false) {}).log.unplaced :=
  layouts_agree sample (by decide) (by decide) (by decide)
    (by
      intro w hw
      obtain rfl := Option.some.inj hw
      decide)
    (by decide) (.inr ⟨rfl, by decide⟩) (by decide) true false

end Outline

end Acceptor
