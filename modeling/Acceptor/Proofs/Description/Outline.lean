import Acceptor.Description.Parse
import Acceptor.Proofs.Description.Sections

/-!
# Sources written in either layout

An `Outline` says what a source is to contain, as lists of words and of test strings, and can be
written in both layouts.  Reading the written text gives back the words of the outline, every one
with its place: this is what `Outline.Placed` holds.  Everything that reading has to decode (the
start, the transitions, the test strings) is decoded from these words in the same way in both
layouts, except that each layout has its own forms of transitions and of test strings.

* `exists_readSectioned`   reading an outline that was written in the sectioned layout
* `exists_readLegacy`      reading an outline that was written in the legacy layout
-/

namespace Acceptor

open Text (IsWord IsLine trimmed unwords unlines wordTexts)

/-- The contents of a source, word by word. -/
structure Outline where
  accepting : List String
  /-- The words for the start state, the first of which is its name. -/
  start : List String
  others : List String
  transitions : List String
  tests : List String
  isWord_accepting : ∀ w ∈ accepting, IsWord w
  isWord_start : ∀ w ∈ start, IsWord w
  isWord_others : ∀ w ∈ others, IsWord w
  isWord_transitions : ∀ w ∈ transitions, IsWord w
  isLine_tests : ∀ l ∈ tests, IsLine l
  start_ne_nil : start ≠ []

/-! ## Words that are decoded -/

namespace Description

theorem map_value_readTransitions (read? : String → Option Transition) (words : List Token) :
    (readTransitions read? words).map (·.value) = (words.map (·.value)).filterMap read? := by
  simp only [readTransitions]
  rw [List.map_filterMap, List.filterMap_map]
  congr 1
  funext word
  show ((read? word.value).map _).map _ = read? word.value
  rw [Option.map_map]
  exact Option.map_id'

/-- Nothing is reported about words that can all be decoded. -/
theorem malformedTransitions_eq_nil {read? : String → Option Transition} {words : List Token}
    (h : ∀ w ∈ words.map (·.value), (read? w).isSome = true) (form : String) :
    malformedTransitions read? form words = [] := by
  have hnone : (words.filter fun word => (read? word.value).isNone) = [] := by
    rw [List.filter_eq_nil_iff]
    intro word hword
    have hsome := h _ (List.mem_map_of_mem hword)
    simpa using Option.isSome_iff_ne_none.mp hsome
  simp only [malformedTransitions]
  rw [hnone, List.map_nil]

end Description

/-- The text that a line of test strings stands for. -/
def testText (l : String) : String := if l ∈ epsilonSpellings then "" else l

theorem map_value_testString (lines : List Token) :
    (lines.map testString).map (·.value) = (lines.map (·.value)).map testText := by
  rw [List.map_map, List.map_map]
  apply List.map_congr_left
  intro line _
  show (testString line).value = testText line.value
  simp only [testString, testText]
  split <;> rfl

/-! ## Outlines -/

namespace Outline

/-- A line that sets a part to some words. -/
def sectionLine (part : Section) (ws : List String) : String := part.key ++ ": " ++ unwords ws

/-- The lines of an outline in the sectioned layout. -/
def sectionedLines (o : Outline) : List String :=
  [sectionedMarker, sectionLine .accepting o.accepting, sectionLine .start o.start,
    sectionLine .states o.others, sectionLine .transitions o.transitions, "tests:"] ++ o.tests

/-- The lines of an outline in the legacy layout, where the line of other states is left out if
    there are none. -/
def legacyLines (o : Outline) : List String :=
  [unwords o.accepting, unwords o.start] ++ (if o.others = [] then [] else [unwords o.others]) ++
    [unwords o.transitions] ++ o.tests

/-- An outline written in the sectioned layout. -/
def sectionedSource (o : Outline) (closed : Bool) : String := unlines o.sectionedLines closed

/-- An outline written in the legacy layout. -/
def legacySource (o : Outline) (closed : Bool) : String := unlines o.legacyLines closed

/-- The words of an outline, each with its place in a source. -/
structure Placed (o : Outline) where
  accepting : List Token
  start : List Token
  others : List Token
  transitions : List Token
  tests : List Token
  map_accepting : accepting.map (·.value) = o.accepting
  map_start : start.map (·.value) = o.start
  map_others : others.map (·.value) = o.others
  map_transitions : transitions.map (·.value) = o.transitions
  map_tests : tests.map (·.value) = o.tests

variable {o : Outline}

/-- The description with these words, where transitions are read by `read?` and test strings by
    `test`. -/
def Placed.description (p : o.Placed) (read? : String → Option Transition) (test : Token → Token) :
    Description where
  accepting := p.accepting
  start := p.start.head?
  others := p.others
  transitions := Description.readTransitions read? p.transitions
  tests := p.tests.map test

/-- The reports about these words, where transitions are read by `read?`. -/
def Placed.problems (p : o.Placed) (read? : String → Option Transition) (form : String) :
    List Diagnostic :=
  Description.extraStartWords p.start ++ Description.malformedTransitions read? form p.transitions

/-- If the choice is left open, the text of the first line decides. -/
theorem isSectioned_auto (lines : List Token) :
    Layout.auto.isSectioned lines =
      (lines.map (·.value)).head?.any (· == sectionedMarker) := by
  rw [List.head?_map, Option.any_map]
  rfl

/-! ## The sectioned layout -/

theorem sectionLine_eq (part : Section) (ws : List String) :
    sectionLine part ws = part.key ++ ":" ++ (" " ++ unwords ws) := by
  have hcolon : ": " = ":" ++ " " := rfl
  simp only [sectionLine]
  rw [hcolon, ← String.append_assoc, String.append_assoc]

/-- A part is set to the words that its line was written with. -/
theorem readSections_sectionLine (p : Description.Progress) {line : Token} {part : Section}
    {ws : List String} (hline : line.value = trimmed (sectionLine part ws)) (hnew : part ∉ p.seen)
    (hws : ∀ w ∈ ws, IsWord w) (rest : List Token) :
    ∃ words : List Token, words.map (·.value) = ws ∧
      Description.readSections p (line :: rest) =
        Description.readSections (p.assign part line words) rest := by
  rw [sectionLine_eq] at hline
  obtain ⟨words, hwords, hread⟩ := Description.readSections_known hline hnew rest
  refine ⟨words, ?_, hread⟩
  -- the space behind the colon stands before the words
  have hspace : (" " ++ unwords ws).toList = ' ' :: (unwords ws).toList := by
    simp
  rw [hwords, hspace, Text.wordTexts_cons_blank (by decide), Text.wordTexts_unwords hws]

theorem map_trimmed_tests (o : Outline) : o.tests.map trimmed = o.tests := by
  calc o.tests.map trimmed
    _ = o.tests.map id := List.map_congr_left fun l hl => (o.isLine_tests l hl).trimmed_eq
    _ = o.tests := List.map_id o.tests

theorem exists_readSectioned (o : Outline) {lines : List Token}
    (hlines : lines.map (·.value) = o.sectionedLines.map trimmed) :
    ∃ p : o.Placed, Description.readSectioned lines =
      (p.description Transition.read? testString,
        p.problems Transition.read? "<from>,<symbol>,<to> or <from><symbol><to>") := by
  simp only [sectionedLines] at hlines
  simp only [List.map_cons, List.cons_append, List.nil_append] at hlines
  obtain ⟨marker, lines, rfl, hmarker, hlines⟩ := List.map_eq_cons_iff.mp hlines
  obtain ⟨accepting, lines, rfl, haccepting, hlines⟩ := List.map_eq_cons_iff.mp hlines
  obtain ⟨start, lines, rfl, hstart, hlines⟩ := List.map_eq_cons_iff.mp hlines
  obtain ⟨others, lines, rfl, hothers, hlines⟩ := List.map_eq_cons_iff.mp hlines
  obtain ⟨transitions, lines, rfl, htransitions, hlines⟩ := List.map_eq_cons_iff.mp hlines
  obtain ⟨tests, lines, rfl, htests, hlines⟩ := List.map_eq_cons_iff.mp hlines
  -- one section after the other
  let p₀ : Description.Progress := {}
  obtain ⟨wa, hwa, hreada⟩ := readSections_sectionLine p₀ haccepting (by simp [p₀])
    o.isWord_accepting (start :: others :: transitions :: tests :: lines)
  let p₁ := p₀.assign .accepting accepting wa
  obtain ⟨ws, hws, hreads⟩ := readSections_sectionLine p₁ hstart (by simp [p₁, p₀])
    o.isWord_start (others :: transitions :: tests :: lines)
  let p₂ := p₁.assign .start start ws
  obtain ⟨wo, hwo, hreado⟩ := readSections_sectionLine p₂ hothers (by simp [p₂, p₁, p₀])
    o.isWord_others (transitions :: tests :: lines)
  let p₃ := p₂.assign .states others wo
  obtain ⟨wt, hwt, hreadt⟩ := readSections_sectionLine p₃ htransitions (by simp [p₃, p₂, p₁, p₀])
    o.isWord_transitions (tests :: lines)
  let p₄ := p₃.assign .transitions transitions wt
  have hread : Description.readSections {}
      (accepting :: start :: others :: transitions :: tests :: lines) =
      { p₄ with description := { p₄.description with tests := lines.map testString } } := by
    exact hreada.trans (hreads.trans (hreado.trans (hreadt.trans
      (Description.readSections_tests htests lines))))
  -- there is a start section, and it is not empty
  have hseen : .start ∈ p₄.seen := by
    simp [p₄, p₃, p₂, p₁, p₀]
  have hne : ws.isEmpty = false := by
    rw [List.isEmpty_eq_false_iff]
    intro hnil
    rw [hnil] at hws
    exact o.start_ne_nil hws.symm
  have hfound : p₄.found.toList = Description.extraStartWords ws ++
      Description.malformedTransitions Transition.read?
        "<from>,<symbol>,<to> or <from><symbol><to>" wt := by
    simp [p₄, p₃, p₂, p₁, p₀, Description.Progress.assign, Description.problems, hne]
  -- the first line is the marker, which is skipped
  have hmarked : marker.value = sectionedMarker := by
    rw [hmarker]
    decide
  refine ⟨⟨wa, ws, wo, wt, lines, hwa, hws, hwo, hwt, hlines.trans o.map_trimmed_tests⟩, ?_⟩
  unfold Description.readSectioned
  dsimp only
  rw [List.head?_cons, Option.any_some, hmarked, beq_self_eq_true, if_pos rfl, List.tail_cons,
    hread, if_pos hseen, List.append_nil]
  exact congrArg (Prod.mk _) hfound

theorem newline_not_mem_sectionLine {part : Section} {ws : List String}
    (hws : ∀ w ∈ ws, IsWord w) : '\n' ∉ (sectionLine part ws).toList := by
  simp only [sectionLine]
  rw [String.toList_append, String.toList_append, List.mem_append, List.mem_append]
  intro hmem
  rcases hmem with (h | h) | h
  · exact part.isWord_key.newline_not_mem h
  · exact absurd h (by decide)
  · exact Text.newline_not_mem_unwords hws h

theorem trimmed_sectionLine_ne_empty (part : Section) (ws : List String) :
    trimmed (sectionLine part ws) ≠ "" := by
  intro h
  -- the colon is left
  have hchars := toList_trimmed_header part.isWord_key (" " ++ unwords ws)
  rw [← sectionLine_eq, h] at hchars
  simp at hchars

/-- The lines of a source in the sectioned layout. -/
theorem map_value_lines_sectionedSource (o : Outline) (closed : Bool) :
    (Text.lines (o.sectionedSource closed)).map (·.value) = o.sectionedLines.map trimmed := by
  apply Text.map_value_lines_unlines closed
  · simp [sectionedLines]
  · intro l hl
    simp only [sectionedLines] at hl
    simp only [List.mem_append, List.mem_cons, List.not_mem_nil, or_false] at hl
    rcases hl with (rfl | rfl | rfl | rfl | rfl | rfl) | hl
    · exact ⟨by decide, by decide⟩
    · exact ⟨newline_not_mem_sectionLine o.isWord_accepting, trimmed_sectionLine_ne_empty _ _⟩
    · exact ⟨newline_not_mem_sectionLine o.isWord_start, trimmed_sectionLine_ne_empty _ _⟩
    · exact ⟨newline_not_mem_sectionLine o.isWord_others, trimmed_sectionLine_ne_empty _ _⟩
    · exact ⟨newline_not_mem_sectionLine o.isWord_transitions, trimmed_sectionLine_ne_empty _ _⟩
    · exact ⟨by decide, by decide⟩
    · have hline := o.isLine_tests l hl
      exact ⟨hline.no_newline, hline.trimmed_eq.symm ▸ hline.ne_empty⟩

theorem exists_parse_sectionedSource (o : Outline) (closed : Bool) {options : Options}
    (hlayout : options.layout ≠ .legacy) :
    ∃ p : o.Placed, Description.parse (o.sectionedSource closed) options =
      (p.description Transition.read? testString,
        p.problems Transition.read? "<from>,<symbol>,<to> or <from><symbol><to>") := by
  have hlines := o.map_value_lines_sectionedSource closed
  obtain ⟨p, hread⟩ := o.exists_readSectioned hlines
  have hsectioned : options.layout.isSectioned (Text.lines (o.sectionedSource closed)) = true := by
    cases h : options.layout with
    | auto =>
      have hmarker : (trimmed sectionedMarker == sectionedMarker) = true := by decide
      rw [isSectioned_auto, hlines]
      exact hmarker
    | legacy => exact absurd h hlayout
    | sectioned => rfl
  refine ⟨p, ?_⟩
  unfold Description.parse
  dsimp only
  rw [if_pos hsectioned, hread]

/-! ## The legacy layout -/

/-- The words of a line that words were written on. -/
theorem map_value_words_unwords {line : Token} {ws : List String} (hws : ∀ w ∈ ws, IsWord w)
    (hline : line.value = trimmed (unwords ws)) : line.words.map (·.value) = ws := by
  rw [Text.map_value_lineWords hline, Text.wordTexts_unwords hws]

/-- Whether a line is read as the transitions can be told from the text of its first word. -/
theorem readsAsTransitions_eq (line : Token) :
    Description.readsAsTransitions line =
      (line.words.map (·.value)).head?.any (·.length == 3) := by
  simp only [Description.readsAsTransitions]
  rw [List.head?_map, Option.any_map]
  rfl

/-- A line is not ambiguous if all its words have the length of a transition. -/
theorem ambiguousLine_eq_nil {line : Token}
    (h : ∀ w ∈ line.words.map (·.value), w.length = 3) : Description.ambiguousLine line = [] := by
  have hnone : line.words.find? (! Description.isThreeLong ·) = none := by
    rw [List.find?_eq_none]
    intro word hword
    have hlength := h _ (List.mem_map_of_mem hword)
    simpa [Description.isThreeLong] using hlength
  simp only [Description.ambiguousLine]
  rw [hnone]

theorem exists_readLegacy (o : Outline) (flagAmbiguity : Bool) (eof : Span) {lines : List Token}
    (hlines : lines.map (·.value) = o.legacyLines.map trimmed) (hne : o.transitions ≠ [])
    (hthree : ∀ w ∈ o.transitions, w.length = 3)
    (hothers : ∀ w, o.others.head? = some w → w.length ≠ 3) :
    ∃ p : o.Placed, Description.readLegacy flagAmbiguity eof lines =
      (p.description Transition.compact? id,
        p.problems Transition.compact? "<from><symbol><to>") := by
  simp only [legacyLines] at hlines
  simp only [List.map_append, List.map_cons, List.cons_append, List.nil_append] at hlines
  obtain ⟨accepting, lines, rfl, haccepting, hlines⟩ := List.map_eq_cons_iff.mp hlines
  obtain ⟨start, lines, rfl, hstart, hlines⟩ := List.map_eq_cons_iff.mp hlines
  have hwa := map_value_words_unwords o.isWord_accepting haccepting
  have hws := map_value_words_unwords o.isWord_start hstart
  by_cases hnone : o.others = []
  · -- the third line has the transitions, and it looks like it
    rw [if_pos hnone] at hlines
    obtain ⟨transitions, lines, rfl, htransitions, hlines⟩ := List.map_eq_cons_iff.mp hlines
    have hwt := map_value_words_unwords o.isWord_transitions htransitions
    refine ⟨⟨accepting.words, start.words, [], transitions.words, lines, hwa, hws, hnone.symm,
      hwt, hlines.trans o.map_trimmed_tests⟩, ?_⟩
    have hreads : Description.readsAsTransitions transitions = true := by
      rw [readsAsTransitions_eq, hwt]
      cases hwords : o.transitions with
      | nil => exact absurd hwords hne
      | cons w ws => simpa using hthree w (by simp [hwords])
    have hclear : Description.ambiguousLine transitions = [] :=
      ambiguousLine_eq_nil (hwt.symm ▸ hthree)
    unfold Description.readLegacy
    dsimp only
    rw [if_pos hreads, hclear, ite_self, List.nil_append]
    simp only [Placed.description]
    rw [List.map_id]
    rfl
  · -- the third line has the other states, and its first word cannot be a transition
    rw [if_neg hnone] at hlines
    obtain ⟨others, lines, rfl, hline, hlines⟩ := List.map_eq_cons_iff.mp hlines
    obtain ⟨transitions, lines, rfl, htransitions, hlines⟩ := List.map_eq_cons_iff.mp hlines
    have hwo := map_value_words_unwords o.isWord_others hline
    have hwt := map_value_words_unwords o.isWord_transitions htransitions
    refine ⟨⟨accepting.words, start.words, others.words, transitions.words, lines, hwa, hws, hwo,
      hwt, hlines.trans o.map_trimmed_tests⟩, ?_⟩
    have hreads : Description.readsAsTransitions others = false := by
      rw [readsAsTransitions_eq, hwo]
      cases hwords : o.others with
      | nil => exact absurd hwords hnone
      | cons w ws => simpa using hothers w (by simp [hwords])
    unfold Description.readLegacy
    dsimp only
    rw [if_neg (by simp [hreads])]
    simp only [Placed.description]
    rw [List.map_id]
    rfl

theorem trimmed_unwords_ne_empty {ws : List String} (hws : ∀ w ∈ ws, IsWord w) (hne : ws ≠ []) :
    trimmed (unwords ws) ≠ "" := by
  intro h
  -- a line that trims to nothing has no words
  have hwords := Text.wordTexts_toList_trimmed (unwords ws)
  rw [h, Text.wordTexts_unwords hws] at hwords
  exact hne hwords.symm

/-- The lines of a source in the legacy layout. -/
theorem map_value_lines_legacySource (o : Outline) (closed : Bool) (haccepting : o.accepting ≠ [])
    (htransitions : o.transitions ≠ []) :
    (Text.lines (o.legacySource closed)).map (·.value) = o.legacyLines.map trimmed := by
  have hline {ws : List String} (hws : ∀ w ∈ ws, IsWord w) (hne : ws ≠ []) :
      '\n' ∉ (unwords ws).toList ∧ trimmed (unwords ws) ≠ "" :=
    ⟨Text.newline_not_mem_unwords hws, trimmed_unwords_ne_empty hws hne⟩
  apply Text.map_value_lines_unlines closed
  · simp [legacyLines]
  · intro l hl
    simp only [legacyLines] at hl
    simp only [List.mem_append, List.mem_cons, List.not_mem_nil, or_false] at hl
    rcases hl with (((rfl | rfl) | hl) | rfl) | hl
    · exact hline o.isWord_accepting haccepting
    · exact hline o.isWord_start o.start_ne_nil
    · split at hl
      · exact nomatch hl
      · next hothers =>
        rw [List.mem_singleton.mp hl]
        exact hline o.isWord_others hothers
    · exact hline o.isWord_transitions htransitions
    · have hline := o.isLine_tests l hl
      exact ⟨hline.no_newline, hline.trimmed_eq.symm ▸ hline.ne_empty⟩

theorem exists_parse_legacySource (o : Outline) (closed : Bool) {options : Options}
    (hlayout : options.layout = .legacy ∨
      options.layout = .auto ∧ o.accepting ≠ [sectionedMarker])
    (haccepting : o.accepting ≠ []) (htransitions : o.transitions ≠ [])
    (hthree : ∀ w ∈ o.transitions, w.length = 3)
    (hothers : ∀ w, o.others.head? = some w → w.length ≠ 3) :
    ∃ p : o.Placed, Description.parse (o.legacySource closed) options =
      (p.description Transition.compact? id,
        p.problems Transition.compact? "<from><symbol><to>") := by
  have hlines := o.map_value_lines_legacySource closed haccepting htransitions
  obtain ⟨p, hread⟩ := o.exists_readLegacy options.flagAmbiguity
    (endOfSource (o.legacySource closed)) hlines htransitions hthree hothers
  have hlegacy : options.layout.isSectioned (Text.lines (o.legacySource closed)) = false := by
    rcases hlayout with h | ⟨h, hmarker⟩
    · rw [h]
      rfl
    · -- the first line is not the marker, since its words are other ones
      have hne : trimmed (unwords o.accepting) ≠ sectionedMarker := by
        intro htext
        have hwords := Text.wordTexts_toList_trimmed (unwords o.accepting)
        rw [htext, Text.wordTexts_unwords o.isWord_accepting] at hwords
        exact hmarker hwords.symm
      rw [h, isSectioned_auto, hlines]
      exact beq_eq_false_iff_ne.mpr hne
  refine ⟨p, ?_⟩
  unfold Description.parse
  dsimp only
  rw [if_neg (by simp [hlegacy]), hread]

end Outline

end Acceptor
