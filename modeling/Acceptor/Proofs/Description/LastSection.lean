import Acceptor.Description.Parse

/-!
# The last section of a kind counts

Reading a sectioned source goes from line to line and replaces what an earlier section of the same
kind has set.  What is left in the end can be told without following the reading: every part of the
description is set to the words of the last value that the lines in front of the tests give to it,
and the reports are those about the single lines, in their order.

What a single line does is said by its header: `Header.apply` is the change of the description,
`Header.see` the parts that are set afterwards, and `Header.reports` what is reported.

* `description_step`, `seen_step`, `found_step`   the effects of a line in front of the tests
* `set_lastWords_readSectioned`   every part is what the last section of its kind sets it to
* `found_readSections`            the reports, line by line
* `seen_readSections`             which parts were set
* `isSectioned_eq_true_iff`       when lines are read like this
-/

namespace Acceptor

namespace Header

/-- Whether the test strings begin. -/
def isTests : Header → Bool
  | .tests _ => true
  | _ => false

theorem isTests_eq_true_iff {header : Header} :
    header.isTests = true ↔ ∃ value, header = .tests value := by
  cases header <;> simp [isTests]

/-- The part that a line sets, if it sets one. -/
def part? : Header → Option Section
  | .known part _ _ => some part
  | _ => none

/-- The value that is given to a part of the description. -/
def value? (part : Section) : Header → Option Token
  | .known part' _ value => if part' = part then some value else none
  | _ => none

/-- The description with the part set that the line sets. -/
def apply (d : Description) : Header → Description
  | .known part _ value => d.set part value.words
  | _ => d

/-- The parts that are set after the line, where the parts `seen` were set before. -/
def see (seen : List Section) : Header → List Section
  | .known part _ _ => part :: seen
  | _ => seen

/-- The reports about a line with this header, where the parts `seen` were set before. -/
def reports (seen : List Section) (line : Token) : Header → List Diagnostic
  | .malformed => [Description.malformedSection line]
  | .unknown key => [Description.unknownSection key]
  | .known part key value =>
    (if part ∈ seen then [Description.duplicateSection key] else []) ++
      Description.problems part line value.words
  | .tests _ => []

theorem mem_see {header : Header} {seen : List Section} {part : Section} :
    part ∈ header.see seen ↔ header.part? = some part ∨ part ∈ seen := by
  cases header <;> simp [see, part?, eq_comm]

theorem part?_eq_some_iff {header : Header} {part : Section} :
    header.part? = some part ↔ header.value? part ≠ none := by
  cases header <;> simp [part?, value?]

/-- A line that gives a part a value sets it to the words of this value. -/
theorem apply_of_value?_eq_some {header : Header} {part : Section} {value : Token}
    (h : header.value? part = some value) (d : Description) :
    header.apply d = d.set part value.words := by
  cases header with
  | malformed => exact nomatch h
  | unknown key => exact nomatch h
  | tests value => exact nomatch h
  | known part' key value' =>
    simp only [value?] at h
    split at h
    · next hpart =>
      subst hpart
      obtain rfl := Option.some.inj h
      rfl
    · exact nomatch h

end Header

namespace Description

/-! ## Setting parts -/

/-- Setting a part again replaces what it was set to. -/
theorem set_set (d : Description) (part : Section) (ws ws' : List Token) :
    (d.set part ws).set part ws' = d.set part ws' := by
  cases part <;> rfl

/-- Different parts are set independently. -/
theorem set_comm (d : Description) {part part' : Section} (h : part ≠ part')
    (ws ws' : List Token) : (d.set part ws).set part' ws' = (d.set part' ws').set part ws := by
  cases part <;> cases part' <;> first | rfl | exact absurd rfl h

/-- A line that does not give the part a value leaves it alone. -/
theorem set_apply_of_value?_eq_none {header : Header} {part : Section}
    (h : header.value? part = none) (d : Description) (ws : List Token) :
    (header.apply d).set part ws = header.apply (d.set part ws) := by
  cases header with
  | malformed => rfl
  | unknown key => rfl
  | tests value => rfl
  | known part' key value =>
    have hne : part' ≠ part := by
      rintro rfl
      simp [Header.value?] at h
    exact set_comm d hne value.words ws

theorem set_empty (part : Section) : ({} : Description).set part [] = {} := by
  cases part <;> rfl

/-! ## Lines in front of the tests -/

/-- The lines in front of the one that begins the test strings. -/
def headerLines (body : List Token) : List Token :=
  body.takeWhile fun line => ! (Header.ofLine line).isTests

/-- The values that lines give to a part, in order. -/
def valuesOf (part : Section) (lines : List Token) : List Token :=
  lines.filterMap fun line => (Header.ofLine line).value? part

/-- The words of the last value that lines give to a part; none if there is no value. -/
def lastWords (part : Section) (lines : List Token) : List Token :=
  ((valuesOf part lines).getLast?.map Located.words).getD []

theorem mem_valuesOf {part : Section} {lines : List Token} {value : Token} :
    value ∈ valuesOf part lines ↔
      ∃ line ∈ lines, ∃ key, Header.ofLine line = .known part key value := by
  simp only [valuesOf]
  rw [List.mem_filterMap]
  refine exists_congr fun line => and_congr_right fun _ => ?_
  cases h : Header.ofLine line <;> simp [Header.value?]

@[simp] theorem valuesOf_nil (part : Section) : valuesOf part [] = [] := rfl

@[simp] theorem valuesOf_cons (part : Section) (line : Token) (lines : List Token) :
    valuesOf part (line :: lines) =
      ((Header.ofLine line).value? part).toList ++ valuesOf part lines := by
  simp only [valuesOf]
  cases h : (Header.ofLine line).value? part <;> simp [h]

theorem headerLines_cons (line : Token) (rest : List Token) :
    headerLines (line :: rest) =
      if (Header.ofLine line).isTests then [] else line :: headerLines rest := by
  simp only [headerLines]
  cases h : (Header.ofLine line).isTests <;> simp [h]

/-! ## Single lines -/

/-- Reads a line that does not begin the tests. -/
def Progress.step (p : Progress) (line : Token) : Progress :=
  match Header.ofLine line with
  | .malformed => p.report (malformedSection line)
  | .unknown key => p.report (unknownSection key)
  | .known part key value => p.set part line key value
  | .tests _ => p

/-- Reads the line that begins the tests. -/
def Progress.finish (p : Progress) (value : Token) (rest : List Token) : Progress :=
  { p with description := { p.description with tests := readTests value rest } }

theorem readSections_cons {p : Progress} {line : Token}
    (h : (Header.ofLine line).isTests = false) (rest : List Token) :
    readSections p (line :: rest) = readSections (p.step line) rest := by
  rw [readSections]
  simp only [Progress.step]
  cases hline : Header.ofLine line with
  | malformed => rfl
  | unknown key => rfl
  | known part key value => rfl
  | tests value => simp [hline, Header.isTests] at h

theorem readSections_cons_tests {p : Progress} {line value : Token}
    (h : Header.ofLine line = .tests value) (rest : List Token) :
    readSections p (line :: rest) = p.finish value rest := by
  rw [readSections, h]
  rfl

/-- Lines in front of the tests are read one after the other. -/
theorem readSections_append {lines : List Token}
    (h : ∀ line ∈ lines, (Header.ofLine line).isTests = false) (p : Progress) (rest : List Token) :
    readSections p (lines ++ rest) = readSections (lines.foldl Progress.step p) rest := by
  induction lines generalizing p with
  | nil => rfl
  | cons line lines ih =>
    rw [List.cons_append, readSections_cons (h line (by simp)), List.foldl_cons]
    exact ih (fun l hl => h l (by simp [hl])) _

namespace Progress

@[simp] theorem description_set (p : Progress) (part : Section) (line key value : Token) :
    (p.set part line key value).description = p.description.set part value.words := by
  simp only [set]
  split <;> rfl

@[simp] theorem seen_set (p : Progress) (part : Section) (line key value : Token) :
    (p.set part line key value).seen = part :: p.seen := by
  simp only [set]
  split <;> rfl

theorem description_step (p : Progress) (line : Token) :
    (p.step line).description = (Header.ofLine line).apply p.description := by
  simp only [step]
  cases Header.ofLine line with
  | malformed => rfl
  | unknown key => rfl
  | tests value => rfl
  | known part key value => exact p.description_set part line key value

theorem seen_step (p : Progress) (line : Token) :
    (p.step line).seen = (Header.ofLine line).see p.seen := by
  simp only [step]
  cases Header.ofLine line with
  | malformed => rfl
  | unknown key => rfl
  | tests value => rfl
  | known part key value => exact p.seen_set part line key value

theorem found_step (p : Progress) (line : Token) :
    (p.step line).found.toList =
      p.found.toList ++ (Header.ofLine line).reports p.seen line := by
  simp only [step]
  cases Header.ofLine line with
  | malformed => exact Array.toList_push
  | unknown key => exact Array.toList_push
  | tests value => exact (List.append_nil _).symm
  | known part key value =>
    simp only [set, Header.reports]
    split <;> simp [report]

end Progress

/-! ## Parts of the description -/

theorem headerLines_cons_of_not_tests {line : Token} (h : (Header.ofLine line).isTests = false)
    (rest : List Token) : headerLines (line :: rest) = line :: headerLines rest := by
  rw [headerLines_cons, if_neg (by simp [h])]

theorem headerLines_cons_of_tests {line value : Token} (h : Header.ofLine line = .tests value)
    (rest : List Token) : headerLines (line :: rest) = [] := by
  rw [headerLines_cons, h]
  exact if_pos rfl

/-- A part that is set to `ws` stays so until a line gives it another value. -/
theorem set_readSections (p : Progress) (part : Section) (ws : List Token)
    (h : p.description.set part ws = p.description) (body : List Token) :
    (readSections p body).description.set part
        (((valuesOf part (headerLines body)).getLast?.map Located.words).getD ws) =
      (readSections p body).description := by
  induction body generalizing p ws with
  | nil => exact h
  | cons line rest ih =>
    cases htests : (Header.ofLine line).isTests with
    | true =>
      obtain ⟨value, hof⟩ := Header.isTests_eq_true_iff.mp htests
      rw [readSections_cons_tests hof, headerLines_cons_of_tests hof]
      -- the part is not one of the test strings
      have hfinish : (p.finish value rest).description.set part ws =
          { p.description.set part ws with tests := readTests value rest } := by
        cases part <;> rfl
      rw [h] at hfinish
      exact hfinish
    | false =>
      rw [readSections_cons htests, headerLines_cons_of_not_tests htests, valuesOf_cons]
      have hstep := p.description_step line
      cases hvalue : (Header.ofLine line).value? part with
      | none =>
        -- another part is set, or none
        refine ih (p.step line) ws ?_
        rw [hstep, set_apply_of_value?_eq_none hvalue, h]
      | some value =>
        -- from here on the part is set to the words of this value
        have hset : (p.step line).description.set part value.words =
            (p.step line).description := by
          rw [hstep, Header.apply_of_value?_eq_some hvalue, set_set]
        have hrest := ih (p.step line) value.words hset
        rw [Option.toList_some, List.singleton_append, List.getLast?_cons]
        cases hlast : (valuesOf part (headerLines rest)).getLast? with
        | none => simpa [hlast] using hrest
        | some last => simpa [hlast] using hrest

/-- Lines are read in the sectioned layout if that is asked for, or if the choice is left open and
    the first one is the marker. -/
theorem isSectioned_eq_true_iff {layout : Layout} {lines : List Token} :
    layout.isSectioned lines = true ↔
      layout = .sectioned ∨ layout = .auto ∧ lines.head?.map (·.value) = some sectionedMarker := by
  cases layout with
  | auto => cases lines <;> simp [Layout.isSectioned]
  | legacy => simp [Layout.isSectioned]
  | sectioned => simp [Layout.isSectioned]

/-- The lines of a sectioned source without the marker. -/
def sectionedBody (lines : List Token) : List Token :=
  if lines.head?.any (·.value == sectionedMarker) then lines.tail else lines

theorem sectionedBody_suffix (lines : List Token) : sectionedBody lines <:+ lines := by
  simp only [sectionedBody]
  split
  · exact List.tail_suffix _
  · exact List.suffix_refl _

theorem readSectioned_eq (lines : List Token) :
    readSectioned lines =
      ((readSections {} (sectionedBody lines)).description,
        (readSections {} (sectionedBody lines)).found.toList ++
          if .start ∈ (readSections {} (sectionedBody lines)).seen then []
          else [missingStart]) := rfl

/-- Every part is what the last section of its kind sets it to. -/
theorem set_lastWords_readSectioned (lines : List Token) (part : Section) :
    (readSectioned lines).1.set part (lastWords part (headerLines (sectionedBody lines))) =
      (readSectioned lines).1 :=
  set_readSections {} part [] (set_empty part) (sectionedBody lines)

/-! ## Reports -/

/-- The reports about sections, line by line; the parts `seen` were set before. -/
def sectionReports (seen : List Section) : List Token → List Diagnostic
  | [] => []
  | line :: rest =>
    match Header.ofLine line with
    | .malformed => malformedSection line :: sectionReports seen rest
    | .unknown key => unknownSection key :: sectionReports seen rest
    | .known part key value =>
      (if part ∈ seen then [duplicateSection key] else []) ++ problems part line value.words ++
        sectionReports (part :: seen) rest
    | .tests _ => []

theorem sectionReports_cons {line : Token} (h : (Header.ofLine line).isTests = false)
    (seen : List Section) (rest : List Token) :
    sectionReports seen (line :: rest) =
      (Header.ofLine line).reports seen line ++
        sectionReports ((Header.ofLine line).see seen) rest := by
  rw [sectionReports]
  cases hline : Header.ofLine line with
  | malformed => rfl
  | unknown key => rfl
  | known part key value => rfl
  | tests value => simp [hline, Header.isTests] at h

theorem sectionReports_cons_tests {line value : Token} (h : Header.ofLine line = .tests value)
    (seen : List Section) (rest : List Token) : sectionReports seen (line :: rest) = [] := by
  rw [sectionReports, h]

/-- Every report is about one of the lines. -/
theorem exists_of_mem_sectionReports {seen : List Section} {body : List Token} {d : Diagnostic}
    (h : d ∈ sectionReports seen body) :
    ∃ line ∈ body, ∃ seen', d ∈ (Header.ofLine line).reports seen' line := by
  induction body generalizing seen with
  | nil => exact nomatch h
  | cons line rest ih =>
    cases htests : (Header.ofLine line).isTests with
    | true =>
      obtain ⟨value, hof⟩ := Header.isTests_eq_true_iff.mp htests
      rw [sectionReports_cons_tests hof] at h
      exact nomatch h
    | false =>
      rw [sectionReports_cons htests] at h
      rcases List.mem_append.mp h with h | h
      · exact ⟨line, List.mem_cons_self, seen, h⟩
      · obtain ⟨line', hline', hd⟩ := ih h
        exact ⟨line', List.mem_cons_of_mem line hline', hd⟩

theorem found_readSections (p : Progress) (body : List Token) :
    (readSections p body).found.toList = p.found.toList ++ sectionReports p.seen body := by
  induction body generalizing p with
  | nil => exact (List.append_nil _).symm
  | cons line rest ih =>
    cases htests : (Header.ofLine line).isTests with
    | true =>
      obtain ⟨value, hof⟩ := Header.isTests_eq_true_iff.mp htests
      rw [readSections_cons_tests hof, sectionReports_cons_tests hof, List.append_nil]
      rfl
    | false =>
      rw [readSections_cons htests, sectionReports_cons htests, ih, Progress.found_step,
        Progress.seen_step, List.append_assoc]

/-- What is wrong with the value of a section is reported, also if the section is replaced. -/
theorem problems_subset_sectionReports (seen : List Section) {body : List Token}
    {line key value : Token} {part : Section} (hline : line ∈ headerLines body)
    (hof : Header.ofLine line = .known part key value) :
    problems part line value.words ⊆ sectionReports seen body := by
  induction body generalizing seen with
  | nil => exact absurd hline List.not_mem_nil
  | cons first rest ih =>
    cases htests : (Header.ofLine first).isTests with
    | true =>
      obtain ⟨tests, hfirst⟩ := Header.isTests_eq_true_iff.mp htests
      rw [headerLines_cons_of_tests hfirst] at hline
      exact nomatch hline
    | false =>
      rw [headerLines_cons_of_not_tests htests] at hline
      rw [sectionReports_cons htests]
      intro report hreport
      rcases List.mem_cons.mp hline with rfl | hline
      · rw [hof]
        exact List.mem_append_left _ (List.mem_append_right _ hreport)
      · -- the reports about the first line stand in front
        exact List.mem_append_right _ (ih _ hline hreport)

theorem seen_readSections (p : Progress) (part : Section) (body : List Token) :
    part ∈ (readSections p body).seen ↔
      part ∈ p.seen ∨ valuesOf part (headerLines body) ≠ [] := by
  induction body generalizing p with
  | nil => simp [readSections, headerLines]
  | cons line rest ih =>
    cases htests : (Header.ofLine line).isTests with
    | true =>
      obtain ⟨value, hof⟩ := Header.isTests_eq_true_iff.mp htests
      rw [readSections_cons_tests hof, headerLines_cons_of_tests hof]
      simp [Progress.finish]
    | false =>
      rw [readSections_cons htests, headerLines_cons_of_not_tests htests, ih, Progress.seen_step,
        Header.mem_see, Header.part?_eq_some_iff, valuesOf_cons]
      cases (Header.ofLine line).value? part <;> simp

/-- The reports about a sectioned source. -/
theorem readSectioned_snd (lines : List Token) :
    (readSectioned lines).2 = sectionReports [] (sectionedBody lines) ++
      if valuesOf .start (headerLines (sectionedBody lines)) = [] then [missingStart] else [] := by
  have hseen := seen_readSections {} .start (sectionedBody lines)
  rw [readSectioned_eq, found_readSections]
  by_cases h : valuesOf .start (headerLines (sectionedBody lines)) = []
  · rw [if_pos h, if_neg (by simpa [h] using hseen)]
    rfl
  · rw [if_neg h, if_pos (hseen.mpr (.inr h))]
    rfl

end Description

end Acceptor
