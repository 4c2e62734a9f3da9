import Acceptor.Proofs.Description.Outline
import Acceptor.Proofs.Diagnostic.Snippet

/-!
# Test strings are only test strings

Once the test strings have begun, nothing that follows can change what was read before.  A source
that is continued behind a line feed has the lines it had, at the same places, and then the lines of
the continuation.  If its reading had reached the test strings, the new lines become test strings,
whatever they look like: the automaton stays, and so do the reports and the way they are shown.

* `readLegacy_append`, `readSections_append_tests`   lines behind the beginning of the tests
* `parse_continued`                                  sources that are continued
* `load_continued`                                   what is loaded from them
-/

namespace Acceptor

namespace Description

/-- The description with further test strings. -/
def addTests (d : Description) (tests : List Token) : Description :=
  { d with tests := d.tests ++ tests }

/-- Compiling does not look at test strings. -/
@[simp] theorem compile_addTests (d : Description) (tests : List Token) :
    (d.addTests tests).compile = d.compile := rfl

/-! ## The legacy layout -/

/-- The line that a legacy source is taken to list its transitions on. -/
def transitionLine? : List Token → Option Token
  | _ :: _ :: third :: rest => if readsAsTransitions third then some third else rest.head?
  | _ => none

/-- Lines behind the list of transitions are test strings.  The end of the source, which has moved,
    is not looked at. -/
theorem readLegacy_append {lines : List Token} (h : (transitionLine? lines).isSome = true)
    (flagAmbiguity : Bool) (eof eof' : Span) (later : List Token) :
    readLegacy flagAmbiguity eof' (lines ++ later) =
      ((readLegacy flagAmbiguity eof lines).1.addTests later,
        (readLegacy flagAmbiguity eof lines).2) := by
  match lines, h with
  | accepting :: start :: third :: rest, h =>
    simp only [transitionLine?] at h
    simp only [List.cons_append, readLegacy]
    split at h
    · next hthird =>
      rw [if_pos hthird, if_pos hthird]
      rfl
    · next hthird =>
      -- the third line lists states, so there is a fourth line
      rw [if_neg hthird, if_neg hthird]
      cases rest with
      | nil => cases h
      | cons line rest => rfl

/-! ## The sectioned layout -/

/-- What was read, with further test strings. -/
def Progress.addTests (p : Progress) (tests : List Token) : Progress :=
  { p with description := p.description.addTests tests }

theorem readTests_append (value : Token) (rest later : List Token) :
    readTests value (rest ++ later) = readTests value rest ++ later.map testString := by
  simp only [readTests]
  rw [List.map_append, List.append_assoc]

/-- Lines behind the one that begins the tests are test strings. -/
theorem readSections_append_tests {body : List Token}
    (h : ∃ line ∈ body, (Header.ofLine line).isTests = true) (p : Progress) (later : List Token) :
    readSections p (body ++ later) = (readSections p body).addTests (later.map testString) := by
  induction body generalizing p with
  | nil =>
    obtain ⟨line, hline, -⟩ := h
    exact nomatch hline
  | cons first body ih =>
    rw [List.cons_append]
    cases htests : (Header.ofLine first).isTests with
    | true =>
      obtain ⟨value, hof⟩ := Header.isTests_eq_true_iff.mp htests
      rw [readSections_cons_tests hof, readSections_cons_tests hof]
      simp only [Progress.finish, Progress.addTests, addTests]
      rw [readTests_append]
    | false =>
      -- the tests begin on a later line
      have hbody : ∃ line ∈ body, (Header.ofLine line).isTests = true := by
        obtain ⟨line, hline, hof⟩ := h
        rcases List.mem_cons.mp hline with rfl | hline
        · simp [htests] at hof
        · exact ⟨line, hline, hof⟩
      rw [readSections_cons htests, readSections_cons htests]
      exact ih hbody (p.step first)

theorem sectionedBody_append {lines : List Token} (h : lines ≠ []) (later : List Token) :
    sectionedBody (lines ++ later) = sectionedBody lines ++ later := by
  simp only [sectionedBody]
  rw [List.head?_append_of_ne_nil lines h, List.tail_append_of_ne_nil h]
  split <;> rfl

theorem readSectioned_append {lines : List Token}
    (h : ∃ line ∈ sectionedBody lines, (Header.ofLine line).isTests = true) (later : List Token) :
    readSectioned (lines ++ later) =
      ((readSectioned lines).1.addTests (later.map testString), (readSectioned lines).2) := by
  have hne : lines ≠ [] := by
    rintro rfl
    obtain ⟨line, hline, -⟩ := h
    exact nomatch hline
  rw [readSectioned_eq, readSectioned_eq, sectionedBody_append hne, readSections_append_tests h]
  rfl

/-! ## Sources -/

/-- Reading the source gets to its test strings: a line was taken for the list of transitions, or
    there is a line that begins the tests. -/
def ReachesTests (source : String) (options : Options) : Prop :=
  let lines := Text.lines source
  if options.layout.isSectioned lines then
    ∃ line ∈ sectionedBody lines, (Header.ofLine line).isTests = true
  else (transitionLine? lines).isSome = true

theorem ReachesTests.lines_ne_nil {source : String} {options : Options}
    (h : ReachesTests source options) : Text.lines source ≠ [] := by
  intro hnil
  simp only [ReachesTests] at h
  rw [hnil] at h
  split at h
  · obtain ⟨line, hline, -⟩ := h
    exact nomatch hline
  · exact nomatch h

/-- The first line decides on the layout. -/
theorem isSectioned_append {lines : List Token} (h : lines ≠ []) (layout : Layout)
    (later : List Token) : layout.isSectioned (lines ++ later) = layout.isSectioned lines := by
  cases layout with
  | auto =>
    simp only [Layout.isSectioned]
    rw [List.head?_append_of_ne_nil lines h]
  | legacy => rfl
  | sectioned => rfl

/-- How a line of test strings is read. -/
def testReader (source : String) (options : Options) : Token → Token :=
  if options.layout.isSectioned (Text.lines source) then testString else id

/-- Reading a source that is continued behind its first test strings. -/
theorem parse_continued {source : String} {options : Options} (h : ReachesTests source options)
    (more : String) :
    let later := Text.linesAt (Text.byteLength source.toList + 1) more.toList
    parse (source ++ "\n" ++ more) options =
      ((parse source options).1.addTests (later.map (testReader source options)),
        (parse source options).2) := by
  intro later
  have hlayout := isSectioned_append h.lines_ne_nil options.layout later
  simp only [ReachesTests] at h
  simp only [parse, testReader]
  rw [Text.lines_append_newline, hlayout]
  split at h
  · next hsectioned =>
    rw [if_pos hsectioned, if_pos hsectioned, if_pos hsectioned]
    exact readSectioned_append h later
  · next hlegacy =>
    rw [if_neg hlegacy, if_neg hlegacy, if_neg hlegacy, List.map_id]
    exact readLegacy_append h _ _ _ later

end Description

/-- Reports on reading are about what was read, and reports on compiling about what was
    described. -/
theorem faithful_of_mem_load {source : String} {options : Options} {d : Diagnostic}
    (hd : d ∈ (load source options).log.entries) : d.Faithful source := by
  rw [← Array.mem_toList_iff, toList_entries_load, List.mem_append] at hd
  rcases hd with hread | hcompile
  · exact (Description.readingReport_of_mem_parse hread).faithful (Text.Page.lines source)
  · exact (Description.standsIn_parse source options).faithful_compile d hcompile

/-! ## Main result -/

/-- Test strings never influence the automaton or the reports: if a source whose reading gets to its
    test strings is continued behind a line feed, the automaton and the reports stay as they are,
    every report looks the same next to the longer source, and the non-blank lines of the
    continuation become further test strings, where the sectioned layout has spellings of the empty
    one. -/
theorem load_continued {source : String} {options : Options}
    (h : Description.ReachesTests source options) (more : String) :
    let longer := source ++ "\n" ++ more
    (load longer options).automaton = (load source options).automaton ∧
      (load longer options).log = (load source options).log ∧
      (∀ color, (load longer options).log.render longer color =
        (load source options).log.render source color) ∧
      (load longer options).tests = (load source options).tests ++
        (Text.lineTexts more.toList).map
          (if options.layout.isSectioned (Text.lines source) then testText else id) := by
  intro longer
  have hparse : Description.parse longer options = _ := Description.parse_continued h more
  -- further test strings are not compiled, and reading reports nothing about them
  have hlog : (load longer options).log = (load source options).log := by
    simp only [load, hparse, Description.compile_addTests]
  refine ⟨?_, hlog, fun color => ?_, ?_⟩
  · simp only [load, hparse, Description.compile_addTests]
  · rw [hlog]
    exact Log.render_continued (fun d hd => faithful_of_mem_load hd) more color
  · -- the new lines have the texts of the lines of the continuation
    have hlater := Text.map_value_linesAt (Text.byteLength source.toList + 1) more.toList
    simp only [load]
    rw [hparse]
    simp only [Description.addTests, Description.testReader]
    rw [List.map_append]
    congr 1
    split
    · rw [map_value_testString, hlater]
    · rw [List.map_id, List.map_id, hlater]

/-- A source without a line feed at its end, with a report about a line, that is continued with what
    would be a section, a spelling of the empty string and the marker. -/
theorem load_continued_sample :
    let source := "%dfa\naccept\nstart: 0\ntests: a\x0d"
    let longer := source ++ "\n" ++ "accept: 0\n\n ~\n%dfa"
    Description.ReachesTests source {} ∧
      (load longer {}).automaton = (load source {}).automaton ∧
      (load longer {}).log = (load source {}).log ∧
      (∀ color, (load longer {}).log.render longer color =
        (load source {}).log.render source color) ∧
      (load longer {}).tests = (load source {}).tests ++ ["accept: 0", "", "%dfa"] := by
  intro source longer
  have hsectioned : Layout.auto.isSectioned (Text.lines source) = true := by decide
  have hreaches : Description.ReachesTests source {} := by
    simp only [Description.ReachesTests]
    rw [if_pos hsectioned]
    decide
  have htests : (Text.lineTexts "accept: 0\n\n ~\n%dfa".toList).map testText =
      ["accept: 0", "", "%dfa"] := by
    decide
  have hload := load_continued hreaches "accept: 0\n\n ~\n%dfa"
  dsimp only at hload
  rw [if_pos hsectioned, htests] at hload
  exact ⟨hreaches, hload⟩

end Acceptor
