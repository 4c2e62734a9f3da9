import Acceptor.Proofs.Description.Reports
import Acceptor.Proofs.Description.Transition

/-!
# Flagging ambiguous lines only observes

Whether ambiguous lines are flagged decides about a single report.  It stands between the reports
about the start and those about the transitions, and nothing else depends on the choice: the two
logs differ in this report, and the report is there exactly if the third line is read as the
transitions although one of its words has another length.  The compact form is recognised by its
length, so the first word of another length is also the first one that is no transition.

* `readLegacy_flag`        reading with and without the flag
* `Adds`                   reports that were added to others
* `find?_readLegacy`       the first word that is reported as malformed
* `load_flagAmbiguity`     loading with and without the flag
-/

namespace Acceptor

/-- Whether a report says that a line could have been meant otherwise. -/
def Diagnostic.isAmbiguousLayout (d : Diagnostic) : Bool := d.note.issue? = some .ambiguousLayout

/-- Whether a report says that a word is no transition. -/
def Diagnostic.isMalformedTransition (d : Diagnostic) : Bool :=
  d.note.issue? = some .malformedTransitionToken

/-! ## Reports of other kinds -/

/-- None of the reports is about an ambiguous line. -/
def Unambiguous (reports : List Diagnostic) : Prop := ∀ d ∈ reports, d.isAmbiguousLayout = false

namespace Unambiguous

variable {reports reports' : List Diagnostic}

theorem nil : Unambiguous [] := fun _ h => nomatch h

theorem cons {d : Diagnostic} (hd : d.isAmbiguousLayout = false) (h : Unambiguous reports) :
    Unambiguous (d :: reports) := by
  intro d' hd'
  rcases List.mem_cons.mp hd' with rfl | hd'
  · exact hd
  · exact h d' hd'

theorem append (h : Unambiguous reports) (h' : Unambiguous reports') :
    Unambiguous (reports ++ reports') := by
  intro d hd
  rcases List.mem_append.mp hd with hd | hd
  · exact h d hd
  · exact h' d hd

theorem ite {p : Prop} [Decidable p] (h : Unambiguous reports) (h' : Unambiguous reports') :
    Unambiguous (if p then reports else reports') := by
  split
  · exact h
  · exact h'

theorem filter_eq_nil (h : Unambiguous reports) : reports.filter (·.isAmbiguousLayout) = [] := by
  rw [List.filter_eq_nil_iff]
  intro d hd
  simp [h d hd]

theorem filter_not_eq_self (h : Unambiguous reports) :
    reports.filter (! ·.isAmbiguousLayout) = reports := by
  rw [List.filter_eq_self]
  intro d hd
  simp [h d hd]

end Unambiguous

namespace Description

theorem unambiguous_extraStartWords (words : List Token) : Unambiguous (extraStartWords words) := by
  intro d hd
  obtain ⟨word, -, rfl⟩ := List.mem_map.mp hd
  rfl

theorem unambiguous_malformedTransitions (read? : String → Option Transition) (form : String)
    (words : List Token) : Unambiguous (malformedTransitions read? form words) := by
  intro d hd
  obtain ⟨word, -, rfl⟩ := List.mem_map.mp hd
  rfl

theorem unambiguous_problems (part : Section) (line : Token) (words : List Token) :
    Unambiguous (problems part line words) := by
  cases part with
  | accepting => exact .nil
  | states => exact .nil
  | transitions => exact unambiguous_malformedTransitions _ _ words
  | start => exact (unambiguous_extraStartWords words).append (.ite (.cons rfl .nil) .nil)

theorem unambiguous_reports (seen : List Section) (line : Token) (header : Header) :
    Unambiguous (header.reports seen line) := by
  cases header with
  | malformed => exact .cons rfl .nil
  | unknown key => exact .cons rfl .nil
  | tests value => exact .nil
  | known part key value =>
    have hduplicate : Unambiguous (if part ∈ seen then [duplicateSection key] else []) :=
      .ite (.cons rfl .nil) .nil
    exact hduplicate.append (unambiguous_problems part line value.words)

theorem unambiguous_sectionReports (seen : List Section) (body : List Token) :
    Unambiguous (sectionReports seen body) := by
  intro d hd
  obtain ⟨line, -, seen', hd⟩ := exists_of_mem_sectionReports hd
  exact unambiguous_reports seen' line _ d hd

theorem unambiguous_readSectioned (lines : List Token) : Unambiguous (readSectioned lines).2 := by
  rw [readSectioned_snd]
  exact (unambiguous_sectionReports _ _).append (.ite (.cons rfl .nil) .nil)

theorem unambiguous_compile (d : Description) : Unambiguous d.compile.2 := by
  intro report hreport
  rcases mem_compile_snd hreport with ⟨name, -, message, rfl⟩ |
    ⟨t, -, issue, message, hissue, rfl⟩
  · rfl
  · rcases hissue with rfl | rfl <;> rfl

/-! ## Reading with and without the flag -/

/-- What is reported about the third line of a legacy source if ambiguous lines are flagged. -/
def ambiguityReports : List Token → List Diagnostic
  | _ :: _ :: third :: _ => if readsAsTransitions third then ambiguousLine third else []
  | _ => []

/-- The description does not depend on the flag, and a report that is due to the flag stands behind
    those about the start. -/
theorem readLegacy_flag (eof : Span) (lines : List Token) :
    ∃ d before after, Unambiguous before ∧ Unambiguous after ∧ ∀ flagAmbiguity : Bool,
      readLegacy flagAmbiguity eof lines =
        (d, before ++ ((if flagAmbiguity then ambiguityReports lines else []) ++ after)) := by
  match lines with
  | [] => exact ⟨_, [], _, .nil, .cons rfl .nil, fun flag => by cases flag <;> rfl⟩
  | [accepting] => exact ⟨_, [], _, .nil, .cons rfl .nil, fun flag => by cases flag <;> rfl⟩
  | [accepting, start] =>
    exact ⟨_, extraStartWords start.words, _, unambiguous_extraStartWords _, .cons rfl .nil,
      fun flag => by cases flag <;> rfl⟩
  | accepting :: start :: third :: rest =>
    have hstart := unambiguous_extraStartWords start.words
    simp only [readLegacy, ambiguityReports]
    by_cases hthird : readsAsTransitions third = true
    · simp only [if_pos hthird]
      exact ⟨_, _, _, hstart, unambiguous_malformedTransitions _ _ third.words, fun flag => rfl⟩
    · -- the third line lists states
      simp only [if_neg hthird, ite_self, List.nil_append]
      cases rest with
      | nil => exact ⟨_, _, _, hstart, .cons rfl .nil, fun flag => rfl⟩
      | cons line rest =>
        exact ⟨_, _, _, hstart, unambiguous_malformedTransitions _ _ line.words, fun flag => rfl⟩

end Description

/-- The reports `flagged` are `plain` with `added` among them, which are the only ones about an
    ambiguous line, and are no errors. -/
structure Adds (added plain flagged : List Diagnostic) : Prop where
  exists_append : ∃ before after, plain = before ++ after ∧ flagged = before ++ (added ++ after)
  unambiguous : Unambiguous plain
  isAmbiguousLayout : ∀ d ∈ added, d.isAmbiguousLayout = true
  level_ne_error : ∀ d ∈ added, d.note.level ≠ .error

namespace Adds

variable {added plain flagged : List Diagnostic}

/-- Nothing was added. -/
theorem refl (h : Unambiguous plain) : Adds [] plain plain where
  exists_append := ⟨[], plain, rfl, rfl⟩
  unambiguous := h
  isAmbiguousLayout := by simp
  level_ne_error := by simp

/-- Further reports behind both. -/
theorem append_right (h : Adds added plain flagged) {more : List Diagnostic}
    (hmore : Unambiguous more) : Adds added (plain ++ more) (flagged ++ more) where
  exists_append := by
    obtain ⟨before, after, rfl, rfl⟩ := h.exists_append
    exact ⟨before, after ++ more, by simp, by simp⟩
  unambiguous := h.unambiguous.append hmore
  isAmbiguousLayout := h.isAmbiguousLayout
  level_ne_error := h.level_ne_error

/-- What was added can be told from the rest. -/
theorem filter_eq (h : Adds added plain flagged) :
    flagged.filter (·.isAmbiguousLayout) = added ∧
      flagged.filter (! ·.isAmbiguousLayout) = plain := by
  obtain ⟨before, after, rfl, rfl⟩ := h.exists_append
  have hbefore : Unambiguous before := fun d hd => h.unambiguous d (List.mem_append_left _ hd)
  have hafter : Unambiguous after := fun d hd => h.unambiguous d (List.mem_append_right _ hd)
  have hadded : added.filter (·.isAmbiguousLayout) = added :=
    List.filter_eq_self.mpr h.isAmbiguousLayout
  have hnone : added.filter (! ·.isAmbiguousLayout) = [] :=
    List.filter_eq_nil_iff.mpr fun d hd => by simp [h.isAmbiguousLayout d hd]
  refine ⟨?_, ?_⟩
  · rw [List.filter_append, List.filter_append, hbefore.filter_eq_nil, hafter.filter_eq_nil,
      hadded, List.nil_append, List.append_nil]
  · rw [List.filter_append, List.filter_append, hbefore.filter_not_eq_self,
      hafter.filter_not_eq_self, hnone, List.nil_append]

theorem any_error_eq (h : Adds added plain flagged) :
    plain.any (·.note.level == .error) = flagged.any (·.note.level == .error) := by
  have hadded : added.any (·.note.level == .error) = false := by
    rw [List.any_eq_false]
    intro d hd
    simpa using h.level_ne_error d hd
  obtain ⟨before, after, rfl, rfl⟩ := h.exists_append
  rw [List.any_append, List.any_append, List.any_append, hadded, Bool.false_or]

end Adds

namespace Description

/-! ## The report that is due to the flag -/

/-- The hint at a word that is no transition. -/
def ambiguityHint (word : Token) : String :=
  Text.quoteString word.value ++
    " is not a transition; if this line lists states, rename the first one or use the '%dfa' layout"

/-- The first word that has not the length of a transition is pointed out. -/
theorem mem_ambiguousLine {line : Token} {d : Diagnostic} :
    d ∈ ambiguousLine line ↔ ∃ odd, line.words.find? (! isThreeLong ·) = some odd ∧
      d = (Diagnostic.warning .ambiguousLayout
        "line read as transitions because its first token is three characters long"
        line.span).withHelp (ambiguityHint odd) := by
  simp only [ambiguousLine]
  cases line.words.find? (! isThreeLong ·) with
  | none => simp
  | some odd => simp [ambiguityHint, sectionedMarker, String.append_assoc]

theorem length_ambiguityReports_le (lines : List Token) : (ambiguityReports lines).length ≤ 1 := by
  match lines with
  | [] => simp [ambiguityReports]
  | [accepting] => simp [ambiguityReports]
  | [accepting, start] => simp [ambiguityReports]
  | accepting :: start :: third :: rest =>
    simp only [ambiguityReports, ambiguousLine]
    split
    · split <;> simp
    · simp

theorem mem_ambiguityReports {lines : List Token} {d : Diagnostic} :
    d ∈ ambiguityReports lines ↔
      ∃ third, lines[2]? = some third ∧ readsAsTransitions third = true ∧
        d ∈ ambiguousLine third := by
  match lines with
  | [] => simp [ambiguityReports]
  | [accepting] => simp [ambiguityReports]
  | [accepting, start] => simp [ambiguityReports]
  | accepting :: start :: third :: rest =>
    simp only [ambiguityReports]
    split <;> simp_all

/-- The first report about a word that is no transition is about the first such word. -/
theorem find?_malformedTransitions (read? : String → Option Transition) (form : String)
    (words : List Token) :
    (malformedTransitions read? form words).find? (·.isMalformedTransition) =
      (words.find? fun word => (read? word.value).isNone).map (malformedTransition form) := by
  simp only [malformedTransitions]
  rw [List.find?_map, List.find?_filter]
  congr 2
  funext word
  -- every such report is about a malformed word
  have hmalformed : (malformedTransition form word).isMalformedTransition = true := rfl
  cases read? word.value <;> simp [hmalformed]

/-- The words of another length are those that are no transitions. -/
theorem isNone_compact? (word : Token) :
    (Transition.compact? word.value).isNone = ! isThreeLong word := by
  have hsome : (Transition.compact? word.value).isSome = isThreeLong word := by
    rw [Bool.eq_iff_iff, Transition.isSome_compact?_iff]
    exact beq_iff_eq.symm
  rw [← Option.not_isSome, hsome]

/-- On an ambiguous line, the first word that is reported as malformed is the one that is pointed
    out. -/
theorem find?_readLegacy (flagAmbiguity : Bool) (eof : Span) {lines : List Token} {third : Token}
    (hthird : lines[2]? = some third) (hreads : readsAsTransitions third = true) :
    (readLegacy flagAmbiguity eof lines).2.find? (·.isMalformedTransition) =
      (third.words.find? (! isThreeLong ·)).map (malformedTransition "<from><symbol><to>") := by
  match lines, hthird with
  | accepting :: start :: line :: rest, hthird =>
    obtain rfl : line = third := Option.some.inj hthird
    have hstart : (extraStartWords start.words).find? (·.isMalformedTransition) = none := by
      rw [List.find?_eq_none]
      intro d hd
      obtain ⟨word, -, rfl⟩ := List.mem_map.mp hd
      exact Bool.false_ne_true
    have hambiguous : (if flagAmbiguity then ambiguousLine line else []).find?
        (·.isMalformedTransition) = none := by
      rw [List.find?_eq_none]
      intro d hd
      split at hd
      · obtain ⟨odd, -, rfl⟩ := mem_ambiguousLine.mp hd
        exact Bool.false_ne_true
      · exact nomatch hd
    simp only [readLegacy]
    rw [if_pos hreads]
    simp only [readLegacyBody]
    rw [List.find?_append, hstart, Option.none_or, List.find?_append, hambiguous, Option.none_or,
      find?_malformedTransitions]
    simp only [isNone_compact?]

/-! ## Sources -/

/-- The reports that are due to the flag. -/
def sourceAmbiguityReports (source : String) (layout : Layout) : List Diagnostic :=
  let lines := Text.lines source
  if layout.isSectioned lines then [] else ambiguityReports lines

/-- Reading a source with and without the flag. -/
theorem parse_flag (source : String) (layout : Layout) :
    (parse source ⟨layout, false⟩).1 = (parse source ⟨layout, true⟩).1 ∧
      Adds (sourceAmbiguityReports source layout) (parse source ⟨layout, false⟩).2
        (parse source ⟨layout, true⟩).2 := by
  have hadded (lines : List Token) : ∀ d ∈ ambiguityReports lines,
      d.isAmbiguousLayout = true ∧ d.note.level ≠ .error := by
    intro d hd
    obtain ⟨third, -, -, hd⟩ := mem_ambiguityReports.mp hd
    obtain ⟨odd, -, rfl⟩ := mem_ambiguousLine.mp hd
    exact ⟨rfl, by simp [Diagnostic.withHelp, Diagnostic.attach, Diagnostic.warning]⟩
  simp only [parse, sourceAmbiguityReports]
  split
  · -- sections are read without the flag
    exact ⟨rfl, .refl (unambiguous_readSectioned _)⟩
  · obtain ⟨d, before, after, hbefore, hafter, hread⟩ :=
      readLegacy_flag (endOfSource source) (Text.lines source)
    rw [hread true, hread false, if_pos rfl, if_neg Bool.false_ne_true, List.nil_append]
    exact ⟨rfl, ⟨before, after, rfl, rfl⟩, hbefore.append hafter,
      fun d hd => (hadded _ d hd).1, fun d hd => (hadded _ d hd).2⟩

/-- The source is read by the place of its lines, and the third line has a first word of three
    characters and some word of another length. -/
def IsAmbiguous (source : String) (layout : Layout) : Prop :=
  layout.isSectioned (Text.lines source) = false ∧
    ∃ third, (Text.lines source)[2]? = some third ∧
      (∃ first, third.words.head? = some first ∧ first.value.length = 3) ∧
      ∃ word ∈ third.words, word.value.length ≠ 3

theorem readsAsTransitions_iff {third : Token} :
    readsAsTransitions third = true ↔
      ∃ first, third.words.head? = some first ∧ first.value.length = 3 := by
  simp only [readsAsTransitions]
  rw [Option.any_eq_true]
  simp [isThreeLong]

theorem exists_mem_ambiguousLine_iff {line : Token} :
    (∃ d, d ∈ ambiguousLine line) ↔ ∃ word ∈ line.words, word.value.length ≠ 3 := by
  constructor
  · rintro ⟨d, hd⟩
    obtain ⟨odd, hodd, -⟩ := mem_ambiguousLine.mp hd
    exact ⟨odd, List.mem_of_find?_eq_some hodd, by simpa [isThreeLong] using List.find?_some hodd⟩
  · rintro ⟨word, hword, hlength⟩
    have hsome : (line.words.find? (! isThreeLong ·)).isSome = true :=
      List.find?_isSome.mpr ⟨word, hword, by simpa [isThreeLong] using hlength⟩
    obtain ⟨odd, hodd⟩ := Option.isSome_iff_exists.mp hsome
    exact ⟨_, mem_ambiguousLine.mpr ⟨odd, hodd, rfl⟩⟩

theorem exists_mem_sourceAmbiguityReports_iff {source : String} {layout : Layout} :
    (∃ d, d ∈ sourceAmbiguityReports source layout) ↔ IsAmbiguous source layout := by
  simp only [sourceAmbiguityReports, IsAmbiguous]
  split
  · next hsectioned => simp [hsectioned]
  · next hlegacy =>
    simp only [mem_ambiguityReports]
    rw [Bool.not_eq_true] at hlegacy
    constructor
    · rintro ⟨d, third, hthird, hreads, hd⟩
      exact ⟨hlegacy, third, hthird, readsAsTransitions_iff.mp hreads,
        exists_mem_ambiguousLine_iff.mp ⟨d, hd⟩⟩
    · rintro ⟨-, third, hthird, hfirst, hword⟩
      obtain ⟨d, hd⟩ := exists_mem_ambiguousLine_iff.mpr hword
      exact ⟨d, third, hthird, readsAsTransitions_iff.mpr hfirst, hd⟩

/-- The word that the report points out is the first one that is reported as malformed. -/
theorem exists_word_of_mem_sourceAmbiguityReports {source : String} {layout : Layout}
    {d : Diagnostic} (hd : d ∈ sourceAmbiguityReports source layout) :
    ∃ word, d.attached = [{ level := .help, message := ambiguityHint word }] ∧
      (parse source ⟨layout, true⟩).2.find? (·.isMalformedTransition) =
        some (malformedTransition "<from><symbol><to>" word) := by
  simp only [sourceAmbiguityReports] at hd
  split at hd
  · exact nomatch hd
  · next hlegacy =>
    obtain ⟨third, hthird, hreads, hd⟩ := mem_ambiguityReports.mp hd
    obtain ⟨odd, hodd, rfl⟩ := mem_ambiguousLine.mp hd
    refine ⟨odd, rfl, ?_⟩
    simp only [parse]
    rw [if_neg hlegacy, find?_readLegacy true _ hthird hreads, hodd, Option.map_some]

end Description

/-! ## Main result -/

/-- Flagging ambiguous lines only observes.  With and without the flag the same automaton and the
    same tests are loaded, and there is an error in both cases or in neither; the log without the
    flag is the other one without the reports about ambiguous lines.  There is at most one such
    report, and there is one exactly if the source is read by the place of its lines, its third line
    begins with a word of three characters and has a word of another length.  The hint in this
    report quotes the first word that is reported as malformed. -/
theorem load_flagAmbiguity (source : String) (layout : Layout) :
    let flagged := load source ⟨layout, true⟩
    let plain := load source ⟨layout, false⟩
    plain.automaton = flagged.automaton ∧ plain.tests = flagged.tests ∧
      plain.log.hasError = flagged.log.hasError ∧
      plain.log.entries = flagged.log.entries.filter (! ·.isAmbiguousLayout) ∧
      (flagged.log.entries.filter (·.isAmbiguousLayout)).size ≤ 1 ∧
      ((∃ d ∈ flagged.log.entries, d.isAmbiguousLayout = true) ↔
        Description.IsAmbiguous source layout) ∧
      ∀ d ∈ flagged.log.entries, d.isAmbiguousLayout = true →
        ∃ word, d.attached = [{ level := .help, message := Description.ambiguityHint word }] ∧
          flagged.log.entries.toList.find? (·.isMalformedTransition) =
            some (Description.malformedTransition "<from><symbol><to>" word) := by
  intro flagged plain
  obtain ⟨hdescription, hreports⟩ := Description.parse_flag source layout
  have hunambiguous := Description.unambiguous_compile (Description.parse source ⟨layout, true⟩).1
  -- the logs differ in what was added on reading
  have hadds : Adds (Description.sourceAmbiguityReports source layout) plain.log.entries.toList
      flagged.log.entries.toList := by
    rw [toList_entries_load, toList_entries_load, hdescription]
    exact hreports.append_right hunambiguous
  obtain ⟨hadded, hplain⟩ := hadds.filter_eq
  have hmem {d : Diagnostic} : d ∈ Description.sourceAmbiguityReports source layout ↔
      d ∈ flagged.log.entries ∧ d.isAmbiguousLayout = true := by
    rw [← hadded, List.mem_filter, Array.mem_toList_iff]
  refine ⟨?_, ?_, ?_, ?_, ?_, ?_, fun d hd hambiguous => ?_⟩
  · exact congrArg (fun d : Description => d.compile.1) hdescription
  · exact congrArg (fun d : Description => d.tests.map (·.value)) hdescription
  · rw [hasError_load, hasError_load]
    exact hadds.any_error_eq
  · apply Array.toList_inj.mp
    rw [Array.toList_filter, hplain]
  · rw [← Array.length_toList, Array.toList_filter, hadded]
    simp only [Description.sourceAmbiguityReports]
    split
    · simp
    · exact Description.length_ambiguityReports_le _
  · rw [← Description.exists_mem_sourceAmbiguityReports_iff]
    simp only [hmem]
  · obtain ⟨word, hhint, hfind⟩ :=
      Description.exists_word_of_mem_sourceAmbiguityReports (hmem.mpr ⟨hd, hambiguous⟩)
    refine ⟨word, hhint, ?_⟩
    rw [toList_entries_load, List.find?_append, hfind, Option.some_or]

end Acceptor
