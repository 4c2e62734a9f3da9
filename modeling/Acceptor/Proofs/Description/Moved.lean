import Acceptor.Proofs.Description.CompileReports
import Acceptor.Proofs.Description.UnplacedReading
import Acceptor.Proofs.Diagnostic.Moved

/-!
# Reading lines at other places

Where a line stands decides nothing but the places of what is read from it.  So if the lines of two
sources have the same texts, and `R` relates the places of all their stretches, then the same is
read from both sources, and `R` relates the places of everything that is read and of everything that
is reported.  The end of the source is reported as a place of its own, so `R` has to relate the two
ends as well.

* `Header.ofLine_moved`      a line taken apart
* `Progress.Moved.step`      a line of the sectioned layout
* `readSectioned_moved`, `readLegacy_moved`   all lines, in both layouts
* `compile_moved`            the automaton and the reports about building it
* `load_moved`               loading as a whole
-/

namespace Acceptor

variable {R : Span → Span → Prop}

/-- The descriptions have the same parts, and `R` relates their places. -/
structure Description.Moved (R : Span → Span → Prop) (d d' : Description) : Prop where
  accepting : List.Forall₂ (Located.Moved R) d.accepting d'.accepting
  start : Option.Rel (Located.Moved R) d.start d'.start
  others : List.Forall₂ (Located.Moved R) d.others d'.others
  transitions : List.Forall₂ (Located.Moved R) d.transitions d'.transitions
  tests : List.Forall₂ (Located.Moved R) d.tests d'.tests

namespace Description

/-! ## Words -/

section Words

variable {words words' : List Token} (h : List.Forall₂ (Located.Moved R) words words')

include h

theorem readTransitions_moved (read? : String → Option Transition) :
    List.Forall₂ (Located.Moved R) (readTransitions read? words)
      (readTransitions read? words') := by
  refine List.rel_filterMap (fun w w' hw => ?_) h
  rw [hw.value_eq]
  cases read? w'.value with
  | none => exact .none
  | some t => exact .some ⟨rfl, hw.span⟩

theorem malformedTransitions_moved (read? : String → Option Transition) (form : String) :
    List.Forall₂ (Diagnostic.Moved R) (malformedTransitions read? form words)
      (malformedTransitions read? form words') := by
  refine List.rel_map (fun w w' hw => ?_) (List.rel_filter (fun w w' hw => ?_) h)
  · simp only [malformedTransition]
    rw [hw.value_eq]
    exact (Diagnostic.Moved.warning hw.span _ _).withHelp _
  · dsimp only
    rw [hw.value_eq]

theorem extraStartWords_moved :
    List.Forall₂ (Diagnostic.Moved R) (extraStartWords words) (extraStartWords words') := by
  have htail := List.forall₂_drop 1 h
  rw [List.drop_one, List.drop_one] at htail
  exact Located.Moved.map_warning htail .extraStartTokens fun text =>
    "unexpected " ++ Text.quoteString text ++ ", the start state is a single name"

theorem problems_moved {line line' : Token} (hline : line.Moved R line') (part : Section) :
    List.Forall₂ (Diagnostic.Moved R) (problems part line words) (problems part line' words') := by
  cases part with
  | accepting => exact .nil
  | states => exact .nil
  | transitions => exact malformedTransitions_moved h _ _
  | start =>
    refine List.rel_append (extraStartWords_moved h) ?_
    cases h with
    | nil => exact .cons (.error (.some hline.span) _ _) .nil
    | cons _ _ => exact .nil

theorem Moved.set {d d' : Description} (hd : d.Moved R d') (part : Section) :
    (d.set part words).Moved R (d'.set part words') := by
  cases part with
  | accepting => exact { hd with accepting := h }
  | start => exact { hd with start := Located.Moved.head? h }
  | states => exact { hd with others := h }
  | transitions => exact { hd with transitions := readTransitions_moved h _ }

end Words

end Description

/-! ## Headers -/

/-- Headers of the same kind with moved keys and values. -/
inductive Header.Moved (R : Span → Span → Prop) : Header → Header → Prop
  | malformed : Moved R .malformed .malformed
  | unknown {key key' : Token} (hkey : key.Moved R key') : Moved R (.unknown key) (.unknown key')
  | known (part : Section) {key key' value value' : Token} (hkey : key.Moved R key')
    (hvalue : value.TextMoved R value') : Moved R (.known part key value) (.known part key' value')
  | tests {value value' : Token} (hvalue : value.TextMoved R value') :
    Moved R (.tests value) (.tests value')

/-- Moved lines are taken apart in the same way. -/
theorem Header.ofLine_moved {line line' : Token} (h : line.TextMoved R line') :
    (Header.ofLine line).Moved R (Header.ofLine line') := by
  simp only [ofLine]
  rcases h.text.cutAt? ':' with ⟨hcut, hcut'⟩ |
    ⟨before, after, before', after', hcut, hcut', hbefore, hafter⟩
  · rw [hcut, hcut']
    exact .malformed
  · have hkey := hbefore.trim.token.moved
    rw [hcut, hcut']
    dsimp only
    rw [hkey.value_eq]
    split
    · exact .malformed
    · split
      · exact .tests hafter.token
      · cases Section.ofKey? before'.trim.token.value with
        | none => exact .unknown hkey
        | some part => exact .known part hkey hafter.token

namespace Header.Moved

variable {header header' : Header}

theorem see_eq (h : header.Moved R header') (seen : List Section) :
    header.see seen = header'.see seen := by
  cases h <;> rfl

theorem apply (h : header.Moved R header') {d d' : Description} (hd : d.Moved R d') :
    (header.apply d).Moved R (header'.apply d') := by
  cases h with
  | malformed => exact hd
  | unknown hkey => exact hd
  | tests hvalue => exact hd
  | known part hkey hvalue => exact Description.Moved.set hvalue.moved_words hd part

theorem reports (h : header.Moved R header') {line line' : Token} (hline : line.Moved R line')
    (seen : List Section) :
    List.Forall₂ (Diagnostic.Moved R) (header.reports seen line) (header'.reports seen line') := by
  cases h with
  | malformed => exact .cons (.error (.some hline.span) _ _) .nil
  | unknown hkey =>
    exact Located.Moved.map_warning (.cons hkey .nil) .unknownSection fun key =>
      "unknown section " ++ Text.quoteString key ++
        ", expected 'accept' | 'start' | 'states' | 'transitions' | 'tests'"
  | tests hvalue => exact .nil
  | known part hkey hvalue =>
    refine List.rel_append ?_ (Description.problems_moved hvalue.moved_words hline part)
    split
    · exact .cons (.warning hkey.span _ _) .nil
    · exact .nil

end Header.Moved

namespace Description

/-! ## The sectioned layout -/

/-- The same was read, and `R` relates the places of what was read and reported. -/
structure Progress.Moved (R : Span → Span → Prop) (p p' : Progress) : Prop where
  description : p.description.Moved R p'.description
  seen_eq : p.seen = p'.seen
  found : List.Forall₂ (Diagnostic.Moved R) p.found.toList p'.found.toList

theorem testString_moved {line line' : Token} (h : line.Moved R line') :
    (testString line).Moved R (testString line') := by
  simp only [testString]
  rw [h.value_eq]
  split
  · exact ⟨rfl, h.span⟩
  · exact h

theorem readTests_moved {value value' : Token} (hvalue : value.TextMoved R value')
    {rest rest' : List Token} (hrest : List.Forall₂ (Located.TextMoved R) rest rest') :
    List.Forall₂ (Located.Moved R) (readTests value rest) (readTests value' rest') := by
  have hinline := hvalue.text.trim
  refine List.rel_append ?_ (List.rel_map (fun _ _ hline => testString_moved hline.moved) hrest)
  rw [hinline.isEmpty_eq]
  split
  · exact .nil
  · exact .cons (testString_moved hinline.token.moved) .nil

namespace Progress.Moved

variable {p p' : Progress}

/-- A moved line in front of the tests has the same effect. -/
theorem step (h : p.Moved R p') {line line' : Token} (hline : line.TextMoved R line') :
    (p.step line).Moved R (p'.step line') := by
  have hheader := Header.ofLine_moved hline
  refine ⟨?_, ?_, ?_⟩
  · rw [description_step, description_step]
    exact hheader.apply h.description
  · rw [seen_step, seen_step, h.seen_eq]
    exact hheader.see_eq _
  · rw [found_step, found_step, h.seen_eq]
    exact List.rel_append h.found (hheader.reports hline.moved _)

theorem finish (h : p.Moved R p') {value value' : Token} (hvalue : value.TextMoved R value')
    {rest rest' : List Token} (hrest : List.Forall₂ (Located.TextMoved R) rest rest') :
    (p.finish value rest).Moved R (p'.finish value' rest') where
  description := { h.description with tests := readTests_moved hvalue hrest }
  seen_eq := h.seen_eq
  found := h.found

/-- Moved lines are read alike, line by line. -/
theorem readSections (h : p.Moved R p') {lines lines' : List Token}
    (hlines : List.Forall₂ (Located.TextMoved R) lines lines') :
    (readSections p lines).Moved R (readSections p' lines') := by
  induction hlines generalizing p p' with
  | nil => exact h
  | @cons line line' lines lines' hline hlines ih =>
    have hheader := Header.ofLine_moved hline
    generalize hof : Header.ofLine line = header, hof' : Header.ofLine line' = header' at hheader
    cases hheader with
    | tests hvalue =>
      -- both readings end here
      rw [readSections_cons_tests hof, readSections_cons_tests hof']
      exact h.finish hvalue hlines
    | malformed =>
      rw [readSections_cons (by rw [hof]; rfl), readSections_cons (by rw [hof']; rfl)]
      exact ih (h.step hline)
    | unknown hkey =>
      rw [readSections_cons (by rw [hof]; rfl), readSections_cons (by rw [hof']; rfl)]
      exact ih (h.step hline)
    | known part hkey hvalue =>
      rw [readSections_cons (by rw [hof]; rfl), readSections_cons (by rw [hof']; rfl)]
      exact ih (h.step hline)

end Progress.Moved

/-- The marker is a matter of the text of the first line. -/
theorem isMarked_moved {lines lines' : List Token}
    (h : List.Forall₂ (Located.TextMoved R) lines lines') :
    lines.head?.any (·.value == sectionedMarker) =
      lines'.head?.any (·.value == sectionedMarker) := by
  cases h with
  | nil => rfl
  | cons hline _ => exact congrArg (· == sectionedMarker) hline.value_eq

theorem sectionedBody_moved {lines lines' : List Token}
    (h : List.Forall₂ (Located.TextMoved R) lines lines') :
    List.Forall₂ (Located.TextMoved R) (sectionedBody lines) (sectionedBody lines') := by
  simp only [sectionedBody]
  rw [isMarked_moved h]
  split
  · have htail := List.forall₂_drop 1 h
    rwa [List.drop_one, List.drop_one] at htail
  · exact h

/-- Descriptions together with the reports on reading them, moved. -/
structure ReadMoved (R : Span → Span → Prop) (read read' : Description × List Diagnostic) :
    Prop where
  description : read.1.Moved R read'.1
  found : List.Forall₂ (Diagnostic.Moved R) read.2 read'.2

/-- Lines are read alike in the sectioned layout if those behind the marker are moved; the marker
    itself need not be there in both. -/
theorem readSectioned_moved_of_body {lines lines' : List Token}
    (h : List.Forall₂ (Located.TextMoved R) (sectionedBody lines) (sectionedBody lines')) :
    ReadMoved R (readSectioned lines) (readSectioned lines') := by
  have hempty : Progress.Moved R {} {} := ⟨⟨.nil, .none, .nil, .nil, .nil⟩, rfl, .nil⟩
  have hread := hempty.readSections h
  rw [readSectioned_eq, readSectioned_eq, hread.seen_eq]
  refine ⟨hread.description, List.rel_append hread.found ?_⟩
  split
  · exact .nil
  · exact .cons ((Diagnostic.Moved.error .none _ _).withHelp _) .nil

/-- Moved lines are read alike in the sectioned layout. -/
theorem readSectioned_moved {lines lines' : List Token}
    (h : List.Forall₂ (Located.TextMoved R) lines lines') :
    ReadMoved R (readSectioned lines) (readSectioned lines') :=
  readSectioned_moved_of_body (sectionedBody_moved h)

/-! ## The legacy layout -/

theorem isThreeLong_moved {word word' : Token} (h : word.Moved R word') :
    isThreeLong word = isThreeLong word' :=
  congrArg (fun text => text.length == 3) h.value_eq

theorem readsAsTransitions_moved {line line' : Token} (h : line.TextMoved R line') :
    readsAsTransitions line = readsAsTransitions line' := by
  have hwords := h.moved_words
  simp only [readsAsTransitions]
  generalize line.words = words, line'.words = words' at hwords
  cases hwords with
  | nil => rfl
  | cons hword _ => exact isThreeLong_moved hword

/-- The same word is the first one of another length. -/
theorem find?_isThreeLong_moved {words words' : List Token}
    (h : List.Forall₂ (Located.Moved R) words words') :
    Option.Rel (Located.Moved R) (words.find? (! isThreeLong ·))
      (words'.find? (! isThreeLong ·)) := by
  induction h with
  | nil => exact .none
  | cons hword _ ih =>
    rw [List.find?_cons, List.find?_cons, isThreeLong_moved hword]
    split
    · exact .some hword
    · exact ih

theorem ambiguousLine_moved {line line' : Token} (h : line.TextMoved R line') :
    List.Forall₂ (Diagnostic.Moved R) (ambiguousLine line) (ambiguousLine line') := by
  have hfind := find?_isThreeLong_moved h.moved_words
  simp only [ambiguousLine]
  generalize line.words.find? (! isThreeLong ·) = odd?,
    line'.words.find? (! isThreeLong ·) = odd?' at hfind
  cases hfind with
  | none => exact .nil
  | some hword =>
    dsimp only
    rw [hword.value_eq]
    exact .cons ((Diagnostic.Moved.warning h.span _ _).withHelp _) .nil

theorem readLegacyBody_moved {d d' : Description} (hd : d.Moved R d') {line line' : Token}
    (hline : line.TextMoved R line') {rest rest' : List Token}
    (hrest : List.Forall₂ (Located.TextMoved R) rest rest') :
    ReadMoved R (d.readLegacyBody line rest) (d'.readLegacyBody line' rest') where
  description := { hd with
    transitions := readTransitions_moved hline.moved_words _
    tests := hrest.imp fun _ _ htest => htest.moved }
  found := malformedTransitions_moved hline.moved_words _ _

theorem ReadMoved.prepend {read read' : Description × List Diagnostic} (h : ReadMoved R read read')
    {ds ds' : List Diagnostic} (hds : List.Forall₂ (Diagnostic.Moved R) ds ds') :
    ReadMoved R (read.1, ds ++ read.2) (read'.1, ds' ++ read'.2) :=
  ⟨h.description, List.rel_append hds h.found⟩

theorem Moved.of_front {accepting accepting' start start' : Token}
    (haccepting : accepting.TextMoved R accepting') (hstart : start.TextMoved R start') :
    ({ accepting := accepting.words, start := start.words.head? } : Description).Moved R
      { accepting := accepting'.words, start := start'.words.head? } :=
  ⟨haccepting.moved_words, Located.Moved.head? hstart.moved_words, .nil, .nil, .nil⟩

/-- Moved lines are read alike in the legacy layout, if the ends of the sources are related. -/
theorem readLegacy_moved (flagAmbiguity : Bool) {eof eof' : Span} (heof : R eof eof')
    {lines lines' : List Token} (h : List.Forall₂ (Located.TextMoved R) lines lines') :
    ReadMoved R (readLegacy flagAmbiguity eof lines) (readLegacy flagAmbiguity eof' lines') := by
  have hmissing (message : String) :
      List.Forall₂ (Diagnostic.Moved R) [missingLine message (some eof)]
        [missingLine message (some eof')] :=
    .cons (.error (.some heof) _ _) .nil
  -- as many lines as the layout tells apart
  cases h with
  | nil => exact ⟨⟨.nil, .none, .nil, .nil, .nil⟩, .cons (.error .none _ _) .nil⟩
  | cons haccepting h =>
    cases h with
    | nil => exact ⟨⟨haccepting.moved_words, .none, .nil, .nil, .nil⟩, hmissing _⟩
    | cons hstart h =>
      have hd := Description.Moved.of_front haccepting hstart
      cases h with
      | nil => exact ⟨hd, List.rel_append (extraStartWords_moved hstart.moved_words) (hmissing _)⟩
      | cons hthird h =>
        simp only [readLegacy]
        rw [readsAsTransitions_moved hthird]
        refine ReadMoved.prepend ?_ (extraStartWords_moved hstart.moved_words)
        split
        · refine (readLegacyBody_moved hd hthird h).prepend ?_
          split
          · exact ambiguousLine_moved hthird
          · exact .nil
        · -- the third line lists states, and the transitions stand on the next one
          have hd' := Moved.set hthird.moved_words hd .states
          cases h with
          | nil => exact ⟨hd', hmissing _⟩
          | cons hline hrest => exact readLegacyBody_moved hd' hline hrest

/-! ## Whole sources -/

/-- Sources whose lines are moved are read alike. -/
theorem parse_moved {source source' : String} (options : Options)
    (hlines : List.Forall₂ (Located.TextMoved R) (Text.lines source) (Text.lines source'))
    (heof : R (endOfSource source) (endOfSource source')) :
    ReadMoved R (parse source options) (parse source' options) := by
  have hlayout : options.layout.isSectioned (Text.lines source) =
      options.layout.isSectioned (Text.lines source') := by
    cases h : options.layout with
    | auto => exact isMarked_moved hlines
    | legacy => rfl
    | sectioned => rfl
  simp only [parse]
  rw [hlayout]
  split
  · exact readSectioned_moved hlines
  · exact readLegacy_moved _ heof hlines

/-! ## Compiling -/

namespace Moved

variable {d d' : Description}

/-- Moved descriptions are the same up to places. -/
theorem unplaced_eq (h : d.Moved R d') : d.unplaced = d'.unplaced := by
  have hlist {α : Type} {ts ts' : List (Located α)} (h : List.Forall₂ (Located.Moved R) ts ts') :
      ts.map Located.unplaced = ts'.map Located.unplaced :=
    map_eq_of_forall₂ (fun _ _ ht => Located.unplaced_congr ht.value_eq) h
  have hstart : d.start.map Located.unplaced = d'.start.map Located.unplaced := by
    have hmoved := h.start
    generalize d.start = start?, d'.start = start?' at hmoved
    cases hmoved with
    | none => rfl
    | some ht => exact congrArg some (Located.unplaced_congr ht.value_eq)
  simp only [unplaced]
  rw [hlist h.accepting, hstart, hlist h.others, hlist h.transitions, hlist h.tests]

theorem names (h : d.Moved R d') : List.Forall₂ (Located.Moved R) d.names d'.names := by
  have hstart := h.start
  refine List.rel_append (List.rel_append ?_ h.accepting) h.others
  generalize d.start = start?, d'.start = start?' at hstart
  cases hstart with
  | none => exact .nil
  | some ht => exact .cons ht .nil

end Moved

theorem firstOccurrencesFrom_moved {names names' : List Token}
    (h : List.Forall₂ (Located.Moved R) names names') (seen : Std.ExtTreeSet String)
    {kept kept' : Array Token} (hkept : List.Forall₂ (Located.Moved R) kept.toList kept'.toList) :
    List.Forall₂ (Located.Moved R) (firstOccurrencesFrom seen kept names)
      (firstOccurrencesFrom seen kept' names') := by
  induction h generalizing seen kept kept' with
  | nil => exact hkept
  | cons hname _ ih =>
    simp only [firstOccurrencesFrom]
    rw [hname.value_eq]
    split
    · exact ih seen hkept
    · refine ih _ ?_
      rw [Array.toList_push, Array.toList_push]
      exact List.rel_append hkept (.cons hname .nil)

theorem zipIdx_moved {ts ts' : List (Located Transition)}
    (h : List.Forall₂ (Located.Moved R) ts ts') (n : Nat) :
    List.Forall₂ (fun p p' => p.1.Moved R p'.1 ∧ p.2 = p'.2) (ts.zipIdx n) (ts'.zipIdx n) := by
  induction h generalizing n with
  | nil => exact .nil
  | cons ht _ ih => exact .cons ⟨ht, rfl⟩ (ih (n + 1))

/-- What is reported about a transition depends on the texts of those in front of it. -/
theorem reportBehind?_moved (registered : List String) (earlier : List Transition)
    {t t' : Located Transition} (h : t.Moved R t') :
    Option.Rel (Diagnostic.Moved R) (reportBehind? registered earlier t)
      (reportBehind? registered earlier t') := by
  simp only [reportBehind?]
  rw [h.value_eq]
  split
  · simp only [Draft.dropped]
    exact .some (.warning h.span _ _)
  · split
    · exact .some (.warning h.span _ _)
    · cases Roster.lastTarget? registered earlier t'.value.source t'.value.symbol with
      | none => exact .none
      | some q =>
        simp only [redefinition, Option.map_some]
        rw [h.value_eq]
        exact .some (.warning h.span _ _)

/-- Moved descriptions compile to the same automaton, with the same reports. -/
theorem compile_moved {d d' : Description} (h : d.Moved R d') :
    d.compile.1 = d'.compile.1 ∧ List.Forall₂ (Diagnostic.Moved R) d.compile.2 d'.compile.2 := by
  have hfirst : List.Forall₂ (Located.Moved R) (firstOccurrences d.names)
      (firstOccurrences d'.names) := firstOccurrencesFrom_moved h.names ∅ .nil
  have hregistered : d.registered = d'.registered :=
    congrArg (List.take stateLimit) (Located.Moved.map_value_eq hfirst)
  have hearlier (n : Nat) : (d.transitions.take n).map (·.value) =
      (d'.transitions.take n).map (·.value) :=
    Located.Moved.map_value_eq (List.forall₂_take n h.transitions)
  refine ⟨(compile_congr h.unplaced_eq).1, ?_⟩
  rw [compile_snd, compile_snd, filterMap_nameOutcomes, filterMap_nameOutcomes,
    filterMap_transitionOutcomes, filterMap_transitionOutcomes, ← firstOccurrences_eq_eraseDupsBy,
    ← firstOccurrences_eq_eraseDupsBy, hregistered]
  refine List.rel_append (List.rel_map ?_ (List.forall₂_drop stateLimit hfirst))
    (List.rel_filterMap ?_ (zipIdx_moved h.transitions 0))
  · intro name name' hname
    exact .error (.some hname.span) _ _
  · rintro ⟨t, n⟩ ⟨t', n'⟩ ⟨ht, rfl⟩
    dsimp only
    rw [hearlier]
    exact reportBehind?_moved _ _ ht

end Description

/-! ## Loading -/

/-- Sources whose lines are moved are loaded alike, and `R` relates the places of the reports. -/
theorem load_moved {source source' : String} (options : Options)
    (hlines : List.Forall₂ (Located.TextMoved R) (Text.lines source) (Text.lines source'))
    (heof : R (endOfSource source) (endOfSource source')) :
    (load source options).automaton = (load source' options).automaton ∧
      (load source options).tests = (load source' options).tests ∧
      List.Forall₂ (Diagnostic.Moved R) (load source options).log.entries.toList
        (load source' options).log.entries.toList := by
  obtain ⟨hdescription, hfound⟩ := Description.parse_moved options hlines heof
  obtain ⟨hautomaton, hcompiled⟩ := Description.compile_moved hdescription
  refine ⟨hautomaton, Located.Moved.map_value_eq hdescription.tests, ?_⟩
  rw [toList_entries_load, toList_entries_load]
  exact List.rel_append hfound hcompiled

end Acceptor
