import Acceptor.Proofs.Description.LastSection
import Acceptor.Proofs.Description.Outline
import Acceptor.Proofs.Description.Reports
import Acceptor.Proofs.Description.UnplacedReading

/-!
# The order of sections

Two lines of a sectioned source that do not set the same part can be exchanged: each of them changes
another part of the description, and whether the part was set before is asked only about the line's
own part.  What changes is the order of the reports.  Lines of the same section keep their order, so
whatever rearrangement is left can be reached by such exchanges, and everything but the order of the
reports and their places stays as it is.

* `Progress.Alike.step`            a line with the same text has the same effect
* `Progress.step_comm`             lines that set different parts can be exchanged
* `Progress.Alike.foldl_reordered` all exchanges together
* `load_reordered`                 the order of sections is irrelevant
-/

namespace Acceptor

/-! ## What a line does -/

namespace Header

/-- Only the line's own part matters. -/
theorem reports_congr_seen {seen seen' : List Section} {header : Header}
    (h : ∀ part, header.part? = some part → (part ∈ seen ↔ part ∈ seen')) (line : Token) :
    header.reports seen line = header.reports seen' line := by
  cases header with
  | malformed => rfl
  | unknown key => rfl
  | tests value => rfl
  | known part key value =>
    simp only [reports]
    rw [if_congr (h part rfl) rfl rfl]

/-- Lines that set different parts set them in either order. -/
theorem apply_comm {header header' : Header}
    (h : ∀ part, header.part? = some part → header'.part? ≠ some part) (d : Description) :
    header'.apply (header.apply d) = header.apply (header'.apply d) := by
  cases header with
  | malformed => rfl
  | unknown key => rfl
  | tests value => rfl
  | known part key value =>
    cases header' with
    | malformed => rfl
    | unknown key => rfl
    | tests value => rfl
    | known part' key' value' =>
      have hne : part ≠ part' := fun heq => h part rfl (congrArg some heq.symm)
      exact Description.set_comm d hne value.words value'.words

namespace Alike

variable {header header' : Header}

theorem isTests_eq (h : header.Alike header') : header.isTests = header'.isTests := by
  cases h <;> rfl

theorem exists_tests {value : Token} (h : (Header.tests value).Alike header') :
    ∃ value', header' = .tests value' ∧ value.value = value'.value := by
  cases h with
  | tests hvalue => exact ⟨_, rfl, hvalue⟩

theorem part?_eq (h : header.Alike header') : header.part? = header'.part? := by
  cases h <;> rfl

theorem unplaced_apply (h : header.Alike header') {d d' : Description}
    (hd : d.unplaced = d'.unplaced) :
    (header.apply d).unplaced = (header'.apply d').unplaced := by
  cases h with
  | malformed => exact hd
  | unknown hkey => exact hd
  | tests hvalue => exact hd
  | known part hkey hvalue =>
    simp only [apply]
    rw [Description.set_unplaced, Description.set_unplaced, hd,
      Located.map_unplaced_words_congr hvalue]

theorem unplaced_reports (h : header.Alike header') {line line' : Token}
    (hline : line.value = line'.value) (seen : List Section) :
    (header.reports seen line).map Diagnostic.unplaced =
      (header'.reports seen line').map Diagnostic.unplaced := by
  have hlines := Located.unplaced_congr hline
  -- forgetting the place of a report is forgetting the place of what it is about
  cases h with
  | malformed => exact congrArg (fun line => [Description.malformedSection line]) hlines
  | unknown hkey =>
    exact congrArg (fun key => [Description.unknownSection key]) (Located.unplaced_congr hkey)
  | tests hvalue => rfl
  | known part hkey hvalue =>
    simp only [reports]
    rw [List.map_append, List.map_append, Description.problems_unplaced,
      Description.problems_unplaced, hlines, Located.map_unplaced_words_congr hvalue]
    congr 1
    split <;> rfl

end Alike

end Header

namespace Description

/-! ## Readings that agree -/

namespace Progress

/-- The same was read, up to places and up to the order of the reports. -/
structure Alike (p p' : Progress) : Prop where
  description_eq : p.description.unplaced = p'.description.unplaced
  mem_seen_iff : ∀ part, part ∈ p.seen ↔ part ∈ p'.seen
  found_perm : (p.found.toList.map Diagnostic.unplaced).Perm
    (p'.found.toList.map Diagnostic.unplaced)

namespace Alike

variable {p p' p'' : Progress}

theorem refl (p : Progress) : p.Alike p := ⟨rfl, fun _ => .rfl, .refl _⟩

theorem trans (h : p.Alike p') (h' : p'.Alike p'') : p.Alike p'' where
  description_eq := h.description_eq.trans h'.description_eq
  mem_seen_iff part := (h.mem_seen_iff part).trans (h'.mem_seen_iff part)
  found_perm := h.found_perm.trans h'.found_perm

/-- A line with the same text has the same effect. -/
theorem step (h : p.Alike p') {line line' : Token} (hline : line.value = line'.value) :
    (p.step line).Alike (p'.step line') := by
  have hheader := Header.ofLine_congr hline
  refine ⟨?_, fun part => ?_, ?_⟩
  · rw [description_step, description_step]
    exact hheader.unplaced_apply h.description_eq
  · rw [seen_step, seen_step, Header.mem_see, Header.mem_see, hheader.part?_eq, h.mem_seen_iff]
  · rw [found_step, found_step, List.map_append, List.map_append,
      Header.reports_congr_seen (fun part _ => h.mem_seen_iff part),
      hheader.unplaced_reports hline]
    exact h.found_perm.append_right _

theorem foldl_step (h : p.Alike p') {lines lines' : List Token}
    (hlines : lines.map (·.value) = lines'.map (·.value)) :
    (lines.foldl Progress.step p).Alike (lines'.foldl Progress.step p') := by
  induction lines generalizing p p' lines' with
  | nil =>
    obtain rfl := List.map_eq_nil_iff.mp hlines.symm
    exact h
  | cons line lines ih =>
    obtain ⟨line', lines', rfl, hline, hlines⟩ := List.map_eq_cons_iff.mp hlines.symm
    exact ih (h.step hline.symm) hlines.symm

end Alike

end Progress

theorem map_value_readTests (value : Token) (rest : List Token) :
    (readTests value rest).map (·.value) =
      (if (Text.trim value.value.toList).isEmpty then []
        else [testText (Text.trimmed value.value)]) ++ (rest.map (·.value)).map testText := by
  have hinline : (Piece.ofToken value).trim.isEmpty = (Text.trim value.value.toList).isEmpty := rfl
  simp only [readTests]
  rw [List.map_append, map_value_testString, hinline]
  split
  · rfl
  · exact congrArg (· ++ _) (map_value_testString [(Piece.ofToken value).trim.token])

theorem Progress.Alike.finish {p p' : Progress} (h : p.Alike p') {value value' : Token}
    (hvalue : value.value = value'.value) {rest rest' : List Token}
    (hrest : rest.map (·.value) = rest'.map (·.value)) :
    (p.finish value rest).Alike (p'.finish value' rest') where
  description_eq := by
    have htests : (readTests value rest).map Located.unplaced =
        (readTests value' rest').map Located.unplaced := by
      apply Located.map_unplaced_congr
      rw [map_value_readTests, map_value_readTests, hvalue, hrest]
    exact congrArg₂ (fun (d : Description) tests => { d with tests }) h.description_eq htests
  mem_seen_iff := h.mem_seen_iff
  found_perm := h.found_perm

/-- Lines with the same texts are read alike. -/
theorem Progress.Alike.readSections {p p' : Progress} (h : p.Alike p') {lines lines' : List Token}
    (hlines : lines.map (·.value) = lines'.map (·.value)) :
    (readSections p lines).Alike (readSections p' lines') := by
  induction lines generalizing p p' lines' with
  | nil =>
    obtain rfl := List.map_eq_nil_iff.mp hlines.symm
    exact h
  | cons line lines ih =>
    obtain ⟨line', lines', rfl, hline, hlines⟩ := List.map_eq_cons_iff.mp hlines.symm
    have hheader := Header.ofLine_congr hline.symm
    cases htests : (Header.ofLine line).isTests with
    | false =>
      rw [readSections_cons htests, readSections_cons (hheader.isTests_eq ▸ htests)]
      exact ih (h.step hline.symm) hlines.symm
    | true =>
      -- both readings end here, and the tests have the same texts
      obtain ⟨value, hof⟩ := Header.isTests_eq_true_iff.mp htests
      rw [hof] at hheader
      obtain ⟨value', hof', hvalue⟩ := hheader.exists_tests
      rw [readSections_cons_tests hof, readSections_cons_tests hof']
      exact h.finish hvalue hlines.symm

/-! ## Exchanging lines -/

/-- The two lines do not set the same part. -/
def Independent (line line' : Token) : Prop :=
  ∀ part, (Header.ofLine line).part? = some part → (Header.ofLine line').part? ≠ some part

/-- Lines that do not set the same part can be exchanged. -/
theorem Progress.step_comm (p : Progress) {line line' : Token} (h : Independent line line') :
    ((p.step line).step line').Alike ((p.step line').step line) := by
  refine ⟨?_, fun part => ?_, ?_⟩
  · rw [description_step, description_step, description_step, description_step,
      Header.apply_comm h]
  · rw [seen_step, seen_step, seen_step, seen_step, Header.mem_see, Header.mem_see, Header.mem_see,
      Header.mem_see]
    exact or_left_comm
  · -- neither line changes what is reported about the other one
    have hreports' : (Header.ofLine line').reports (p.step line).seen line' =
        (Header.ofLine line').reports p.seen line' :=
      Header.reports_congr_seen (fun part hpart => by
        rw [seen_step, Header.mem_see, or_iff_right fun hline => h part hline hpart]) line'
    have hreports : (Header.ofLine line).reports (p.step line').seen line =
        (Header.ofLine line).reports p.seen line :=
      Header.reports_congr_seen (fun part hpart => by
        rw [seen_step, Header.mem_see, or_iff_right (h part hpart)]) line
    rw [found_step, found_step, found_step, found_step, hreports', hreports, List.append_assoc,
      List.append_assoc]
    exact (List.perm_append_comm.append_left _).map _

/-- A line can be moved in front of lines that do not set the same part. -/
theorem Progress.foldl_step_front {line : Token} {front : List Token}
    (h : ∀ l ∈ front, Independent line l) (back : List Token) (p : Progress) :
    ((front ++ back).foldl step (p.step line)).Alike ((front ++ line :: back).foldl step p) := by
  induction front generalizing p with
  | nil => exact .refl _
  | cons first front ih =>
    have hfirst : ((p.step line).step first).Alike ((p.step first).step line) :=
      p.step_comm (h first (by simp))
    have hrest := ih (fun l hl => h l (by simp [hl])) (p.step first)
    exact (hfirst.foldl_step rfl).trans hrest

end Description

/-! ## Rearranging sections -/

/-- A text as a line at the front of a source. -/
def Located.front (text : String) : Token := ⟨text, .at 0⟩

/-- The part that a line with this text sets, if it sets one. -/
def Section.ofText? (text : String) : Option Section := (Header.ofLine (.front text)).part?

/-- The same lines in another order, where the lines of each section keep theirs. -/
structure Reordered (texts texts' : List String) : Prop where
  perm : texts.Perm texts'
  filter_eq : ∀ part, (texts.filter fun text => Section.ofText? text = some part) =
    texts'.filter fun text => Section.ofText? text = some part

namespace Reordered

/-- The first line stands behind lines of other sections only. -/
theorem exists_eq_append_cons {text : String} {texts texts' : List String}
    (h : Reordered (text :: texts) texts') :
    ∃ front back, texts' = front ++ text :: back ∧
      (∀ t ∈ front, ∀ part, Section.ofText? text = some part → Section.ofText? t ≠ some part) ∧
      Reordered texts (front ++ back) := by
  have hmem : text ∈ texts' := h.perm.subset List.mem_cons_self
  obtain ⟨front, back, rfl, hnot⟩ := List.eq_append_cons_of_mem hmem
  -- a line of the same section in front of it would be the first one of that section
  have hfront {part : Section} (hpart : Section.ofText? text = some part) :
      (front.filter fun t => Section.ofText? t = some part) = [] := by
    have hfilter := h.filter_eq part
    rw [List.filter_cons_of_pos (by simpa using hpart), List.filter_append] at hfilter
    cases hlines : front.filter fun t => Section.ofText? t = some part with
    | nil => rfl
    | cons t ts =>
      rw [hlines] at hfilter
      obtain ⟨rfl, -⟩ := List.cons.inj hfilter
      have ht : text ∈ front.filter fun t => Section.ofText? t = some part :=
        hlines ▸ List.mem_cons_self
      exact absurd (List.mem_filter.mp ht).1 hnot
  refine ⟨front, back, rfl, fun t ht part hpart htpart => ?_, ?_, fun part => ?_⟩
  · have hnone := List.filter_eq_nil_iff.mp (hfront hpart) t ht
    exact hnone (by simpa using htpart)
  · exact (h.perm.trans List.perm_middle).cons_inv
  · have hfilter := h.filter_eq part
    rw [List.filter_append] at hfilter ⊢
    by_cases hpart : Section.ofText? text = some part
    · rw [List.filter_cons_of_pos (by simpa using hpart),
        List.filter_cons_of_pos (by simpa using hpart), hfront hpart] at hfilter
      rw [hfront hpart]
      exact (List.cons.inj hfilter).2
    · rwa [List.filter_cons_of_neg (by simpa using hpart),
        List.filter_cons_of_neg (by simpa using hpart)] at hfilter

end Reordered

namespace Description

/-- Rearranged lines are read alike. -/
theorem Progress.Alike.foldl_reordered {texts texts' : List String} (h : Reordered texts texts')
    (p : Progress) :
    ((texts.map .front).foldl Progress.step p).Alike
      ((texts'.map .front).foldl Progress.step p) := by
  induction texts generalizing texts' p with
  | nil =>
    obtain rfl := List.nil_perm.mp h.perm
    exact .refl p
  | cons text texts ih =>
    obtain ⟨front, back, rfl, hfront, hrest⟩ := h.exists_eq_append_cons
    have hindependent : ∀ l ∈ front.map Located.front, Independent (.front text) l := by
      intro l hl
      obtain ⟨t, ht, rfl⟩ := List.mem_map.mp hl
      exact hfront t ht
    have hmove := Progress.foldl_step_front hindependent (back.map Located.front) p
    rw [← List.map_append, ← List.map_cons, ← List.map_append] at hmove
    exact (ih hrest (p.step (.front text))).trans hmove

theorem map_value_map_front (texts : List String) :
    (texts.map Located.front).map (·.value) = texts := by
  rw [List.map_map]
  exact List.map_id texts

/-- Lines that are rearranged in front of the rest of the source are read alike. -/
theorem readSections_reordered {texts texts' rest : List String} (h : Reordered texts texts')
    (htests : ∀ text ∈ texts, (Header.ofLine (.front text)).isTests = false)
    {lines lines' : List Token} (hlines : lines.map (·.value) = texts ++ rest)
    (hlines' : lines'.map (·.value) = texts' ++ rest) :
    (readSections {} lines).Alike (readSections {} lines') := by
  have hfront (ts : List String) (hts : ∀ t ∈ ts, t ∈ texts) :
      ∀ line ∈ ts.map Located.front, (Header.ofLine line).isTests = false := by
    intro line hline
    obtain ⟨t, ht, rfl⟩ := List.mem_map.mp hline
    exact htests t (hts t ht)
  -- the lines may as well stand at the front of the source
  have hmove {ls : List Token} {ts : List String} (hls : ls.map (·.value) = ts) :
      (readSections {} ls).Alike (readSections {} (ts.map Located.front)) :=
    (Progress.Alike.refl {}).readSections (hls.trans (map_value_map_front ts).symm)
  have hmove' {ls : List Token} {ts : List String} (hls : ls.map (·.value) = ts) :
      (readSections {} (ts.map Located.front)).Alike (readSections {} ls) :=
    (Progress.Alike.refl {}).readSections ((map_value_map_front ts).trans hls.symm)
  have horder : (readSections {} ((texts ++ rest).map Located.front)).Alike
      (readSections {} ((texts' ++ rest).map Located.front)) := by
    rw [List.map_append, List.map_append, readSections_append (hfront texts fun _ ht => ht),
      readSections_append (hfront texts' fun _ ht => h.perm.mem_iff.mpr ht)]
    exact (Progress.Alike.foldl_reordered h {}).readSections rfl
  exact ((hmove hlines).trans horder).trans (hmove' hlines')

/-- The start is missing in both readings or in neither. -/
theorem readSectioned_alike {lines lines' : List Token}
    (h : (readSections {} (sectionedBody lines)).Alike (readSections {} (sectionedBody lines'))) :
    (readSectioned lines).1.unplaced = (readSectioned lines').1.unplaced ∧
      ((readSectioned lines).2.map Diagnostic.unplaced).Perm
        ((readSectioned lines').2.map Diagnostic.unplaced) := by
  rw [readSectioned_eq, readSectioned_eq]
  refine ⟨h.description_eq, ?_⟩
  rw [List.map_append, List.map_append, if_congr (h.mem_seen_iff .start) rfl rfl]
  exact h.found_perm.append_right _

theorem parse_marked {source : String} {options : Options} (hlayout : options.layout ≠ .legacy)
    {texts : List String}
    (hsource : Text.lineTexts source.toList = sectionedMarker :: texts) :
    parse source options = readSectioned (Text.lines source) ∧
      (sectionedBody (Text.lines source)).map (·.value) = texts := by
  obtain ⟨marker, lines, hlines, hmarker, htexts⟩ :=
    List.map_eq_cons_iff.mp ((Text.map_value_lines source).trans hsource)
  have hmarked : (marker.value == sectionedMarker) = true := by
    rw [hmarker]
    exact beq_self_eq_true _
  have hsectioned : options.layout.isSectioned (marker :: lines) = true := by
    cases h : options.layout with
    | auto => exact hmarked
    | legacy => exact absurd h hlayout
    | sectioned => rfl
  refine ⟨?_, ?_⟩
  · simp only [parse]
    rw [hlines, if_pos hsectioned]
  · simp only [sectionedBody]
    rw [hlines, List.head?_cons, Option.any_some, if_pos hmarked]
    exact htexts

end Description

/-! ## Main result -/

/-- The order of sections is irrelevant: if the lines behind the marker and in front of the tests
    are rearranged, where the lines of each section keep their order, then the same automaton and
    the same tests are loaded, and the reports are the same up to their order and their places. -/
theorem load_reordered {source source' : String} {options : Options}
    (hlayout : options.layout ≠ .legacy) {texts texts' rest : List String}
    (hsource : Text.lineTexts source.toList = sectionedMarker :: (texts ++ rest))
    (hsource' : Text.lineTexts source'.toList = sectionedMarker :: (texts' ++ rest))
    (htests : ∀ text ∈ texts, (Header.ofLine (.front text)).isTests = false)
    (h : Reordered texts texts') :
    (load source options).automaton = (load source' options).automaton ∧
      (load source options).tests = (load source' options).tests ∧
      ((load source options).log.entries.toList.map Diagnostic.unplaced).Perm
        ((load source' options).log.entries.toList.map Diagnostic.unplaced) := by
  obtain ⟨hparse, hlines⟩ := Description.parse_marked hlayout hsource
  obtain ⟨hparse', hlines'⟩ := Description.parse_marked hlayout hsource'
  have hread := Description.readSectioned_alike
    (Description.readSections_reordered h htests hlines hlines')
  rw [← hparse, ← hparse'] at hread
  obtain ⟨hdescription, hproblems⟩ := hread
  obtain ⟨hautomaton, hfound⟩ := Description.compile_congr hdescription
  refine ⟨hautomaton, Description.map_value_tests_congr hdescription, ?_⟩
  rw [toList_entries_load, toList_entries_load, List.map_append, List.map_append, hfound]
  exact hproblems.append_right _

/-- Sections that are given twice, one of them empty at first, and lines that are no sections. -/
def sampleSections : List String :=
  ["accept: 1", "start:", "names: 0", "start: 0 1", "0,a,1", "delta: 0,a,1"]

/-- The lines of `sampleSections` in another order. -/
def sampleRearrangement : List String :=
  ["0,a,1", "delta: 0,a,1", "start:", "start: 0 1", "names: 0", "accept: 1"]

theorem load_reordered_sample :
    let source := Text.unlines (sectionedMarker :: (sampleSections ++ ["tests:", "~"])) false
    let source' := Text.unlines (sectionedMarker :: (sampleRearrangement ++ ["tests:", "~"])) true
    Reordered sampleSections sampleRearrangement ∧
      (load source {}).automaton = (load source' {}).automaton ∧
      (load source {}).tests = (load source' {}).tests ∧
      ((load source {}).log.entries.toList.map Diagnostic.unplaced).Perm
        ((load source' {}).log.entries.toList.map Diagnostic.unplaced) := by
  have hreordered : Reordered sampleSections sampleRearrangement :=
    ⟨by decide, fun part => by cases part <;> decide⟩
  have htests : ∀ text ∈ sampleSections, (Header.ofLine (.front text)).isTests = false := by
    decide
  -- no line has a blank at its end, so each one is read as it was written
  have hsource : Text.lineTexts (Text.unlines
      (sectionedMarker :: (sampleSections ++ ["tests:", "~"])) false).toList =
        sectionedMarker :: (sampleSections ++ ["tests:", "~"]) := by
    decide
  have hsource' : Text.lineTexts (Text.unlines
      (sectionedMarker :: (sampleRearrangement ++ ["tests:", "~"])) true).toList =
        sectionedMarker :: (sampleRearrangement ++ ["tests:", "~"]) := by
    decide
  exact ⟨hreordered, load_reordered (by decide) hsource hsource' htests hreordered⟩

end Acceptor
