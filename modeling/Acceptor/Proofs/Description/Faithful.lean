import Acceptor.Proofs.Description.LastSection
import Acceptor.Proofs.Description.Reports
import Acceptor.Proofs.Text.Places

/-!
# Reported places are those of the source

Reading takes a source apart line by line and word by word, and everything it returns still carries
the place where it was found: names and tests stand in the source as they are, transitions stand
there as the words they were read from, and a report marks a word, a key or a whole line.  No span
reaches over the end of a line, and within a list the spans are in order.

* `Text.Row`, `Text.Page`        words and lines in a source, in order
* `Header.standsIn_ofLine`       key and value stand in their line
* `standsIn_parse`               the parts of a description stand in the source
* `ReadingReport.faithful`       places of the reports on reading
* `StandsIn.faithful_compile`    places of the reports on compiling
-/

namespace Acceptor

/-! ## Marked places -/

/-- The span marks part of a single line: it is not empty, does not reach over the end of the
    source, and what stands there can be cut out and has no line feed and no blank at either end. -/
structure Span.MarksLine (source : String) (span : Span) : Prop where
  start_lt_stop : span.start < span.stop
  stop_le : span.stop ≤ source.utf8ByteSize
  exists_text : ∃ text, Text.slice? source span = some text ∧ Text.IsLine text

/-- Every note about a place is about the end of the source or marks part of a line. -/
def Diagnostic.Faithful (source : String) (d : Diagnostic) : Prop :=
  ∀ n ∈ d.notes, ∀ span, n.span? = some span → span = endOfSource source ∨ span.MarksLine source

theorem Located.PlacedIn.marksLine {source : String} {t : Token}
    (ht : t.PlacedIn (.ofSource source)) (hline : Text.IsLine t.value) :
    t.span.MarksLine source := by
  refine ⟨?_, ?_, t.value, Text.slice?_of_placed ht, hline⟩
  · obtain ⟨p, -, rfl⟩ := ht
    exact Piece.start_lt_stop (by simpa [Piece.token] using hline.ne_empty)
  · obtain ⟨p, hp, rfl⟩ := ht
    have hstop := hp.stop_le
    simpa [Piece.token, Piece.ofSource, Piece.stop, Text.byteLength_toList] using hstop

namespace Diagnostic

variable {source : String}

theorem faithful_warning {span : Span} (h : span.MarksLine source) (issue : Issue)
    (message : String) : (warning issue message span).Faithful source := by
  intro n hn span' hspan
  obtain rfl := List.mem_singleton.mp hn
  obtain rfl := Option.some.inj hspan
  exact .inr h

theorem faithful_error {span? : Option Span}
    (h : ∀ span, span? = some span → span = endOfSource source ∨ span.MarksLine source)
    (issue? : Option Issue) (message : String) : (error issue? message span?).Faithful source := by
  intro n hn span hspan
  obtain rfl := List.mem_singleton.mp hn
  exact h span hspan

theorem faithful_error_at {span : Span} (h : span.MarksLine source) (issue? : Option Issue)
    (message : String) : (error issue? message (some span)).Faithful source :=
  faithful_error (fun _ hspan => .inr (Option.some.inj hspan ▸ h)) issue? message

/-- A hint has no place. -/
theorem Faithful.withHelp {d : Diagnostic} (h : d.Faithful source) (message : String) :
    (d.withHelp message).Faithful source := by
  intro n hn span hspan
  rcases List.mem_cons.mp hn with rfl | hn
  · exact h d.note List.mem_cons_self span hspan
  · obtain rfl := List.mem_singleton.mp hn
    exact nomatch hspan

end Diagnostic

/-! ## Words and lines in a source -/

/-- Words that stand in a source one after the other. -/
structure Text.Row (source : String) (ws : List Token) : Prop where
  placed : ∀ w ∈ ws, w.PlacedIn (.ofSource source)
  isWord : ∀ w ∈ ws, IsWord w.value
  ascending : Span.Ascending (ws.map (·.span))

namespace Text.Row

variable {source : String} {ws : List Token}

theorem nil : Row source [] where
  placed := by simp
  isWord := by simp
  ascending := ⟨by simp, List.Pairwise.nil⟩

theorem words {line : Token} (hline : line.PlacedIn (.ofSource source)) :
    Row source line.words where
  placed _ hw := (placed_of_mem_words hw).1.trans hline
  isWord _ hw := (placed_of_mem_words hw).2
  ascending := ascending_words line

theorem marksLine (h : Row source ws) {w : Token} (hw : w ∈ ws) : w.span.MarksLine source :=
  (h.placed w hw).marksLine (h.isWord w hw).isLine

/-- The first word of a row is a row of its own. -/
theorem head? (h : Row source ws) : Row source ws.head?.toList := by
  have hsub : ws.head?.toList.Sublist ws := by
    cases ws <;> simp
  exact ⟨fun w hw => h.placed w (hsub.subset hw), fun w hw => h.isWord w (hsub.subset hw),
    h.ascending.sublist (hsub.map _)⟩

end Text.Row

/-- Lines that stand in a source one after the other. -/
structure Text.Page (source : String) (ls : List Token) : Prop where
  placed : ∀ l ∈ ls, l.PlacedIn (.ofSource source)
  isLine : ∀ l ∈ ls, IsLine l.value
  ascending : Span.Ascending (ls.map (·.span))

namespace Text.Page

variable {source : String} {l : Token} {ls : List Token}

theorem lines (source : String) : Page source (lines source) where
  placed _ hl := (placed_of_mem_lines hl).1
  isLine _ hl := (placed_of_mem_lines hl).2
  ascending := ascending_lines source

theorem sublist {ls' : List Token} (h : Page source ls) (hsub : ls'.Sublist ls) :
    Page source ls' where
  placed l hl := h.placed l (hsub.subset hl)
  isLine l hl := h.isLine l (hsub.subset hl)
  ascending := h.ascending.sublist (hsub.map _)

theorem tail (h : Page source (l :: ls)) : Page source ls :=
  h.sublist (List.sublist_cons_self l ls)

theorem marksLine (h : Page source ls) (hl : l ∈ ls) : l.span.MarksLine source :=
  (h.placed l hl).marksLine (h.isLine l hl)

theorem row (h : Page source ls) (hl : l ∈ ls) : Row source l.words := .words (h.placed l hl)

end Text.Page

/-! ## Headers -/

/-- Key and value of a header stand in its line, and so does the key as a text of its own. -/
def Header.StandsIn (whole : Piece) : Header → Prop
  | .malformed => True
  | .unknown key => key.PlacedIn whole ∧ Text.IsLine key.value
  | .known _ key value => (key.PlacedIn whole ∧ Text.IsLine key.value) ∧ value.PlacedIn whole
  | .tests value => value.PlacedIn whole

theorem Header.standsIn_ofLine {line : Token} (hline : Text.IsLine line.value) :
    (Header.ofLine line).StandsIn (.ofToken line) := by
  simp only [Header.ofLine]
  cases hcut : (Piece.ofToken line).cutAt? ':' with
  | none => trivial
  | some sides =>
    obtain ⟨before, after⟩ := sides
    obtain ⟨hbefore, hafter⟩ := Piece.within_of_cutAt? hcut
    have hvalue : after.token.PlacedIn (.ofToken line) := ⟨after, hafter, rfl⟩
    dsimp only
    by_cases hne : before.trim.token.value = ""
    · rw [if_pos hne]
      trivial
    · -- there is a key, and it is trimmed
      have hkey := Piece.placedIn_of_trim hbefore hline (by simpa [Piece.token] using hne)
      rw [if_neg hne]
      split
      · exact hvalue
      · split
        · exact ⟨hkey, hvalue⟩
        · exact hkey

theorem Text.Page.header {source : String} {l : Token} {ls : List Token} (h : Page source ls)
    (hl : l ∈ ls) : (Header.ofLine l).StandsIn (.ofToken l) :=
  Header.standsIn_ofLine (h.isLine l hl)

/-! ## Descriptions -/

namespace Description

variable {source : String}

/-- What was read as a transition stands in its row as a word that reads so. -/
theorem mem_readTransitions {read? : String → Option Transition} {ws : List Token}
    {t : Located Transition} :
    t ∈ readTransitions read? ws ↔ ∃ w ∈ ws, t.span = w.span ∧ read? w.value = some t.value := by
  simp only [readTransitions]
  rw [List.mem_filterMap]
  refine exists_congr fun w => and_congr_right fun _ => ?_
  rw [Option.map_eq_some_iff]
  constructor
  · rintro ⟨t, ht, rfl⟩
    exact ⟨rfl, ht⟩
  · rintro ⟨hspan, hread⟩
    exact ⟨t.value, hread, hspan ▸ rfl⟩

theorem spans_readTransitions_sublist (read? : String → Option Transition) (ws : List Token) :
    ((readTransitions read? ws).map (·.span)).Sublist (ws.map (·.span)) := by
  simp only [readTransitions]
  induction ws with
  | nil => exact .refl _
  | cons w ws ih =>
    rw [List.filterMap_cons]
    cases read? w.value with
    | none => exact ih.cons w.span
    | some t => exact ih.cons_cons w.span

/-- The transitions were read from a row of words, each one in one of the two forms. -/
def ReadFromRow (source : String) (ts : List (Located Transition)) : Prop :=
  ∃ read? ws, ts = readTransitions read? ws ∧ Text.Row source ws ∧
    ∀ word t, read? word = some t →
      Transition.compact? word = some t ∨ Transition.delimited? word = some t

theorem ReadFromRow.compact? {ws : List Token} (h : Text.Row source ws) :
    ReadFromRow source (readTransitions Transition.compact? ws) :=
  ⟨_, ws, rfl, h, fun _ _ hread => .inl hread⟩

theorem ReadFromRow.read? {ws : List Token} (h : Text.Row source ws) :
    ReadFromRow source (readTransitions Transition.read? ws) :=
  ⟨_, ws, rfl, h, fun word t hread => by
    simp only [Transition.read?] at hread
    cases hdelimited : Transition.delimited? word with
    | none => exact .inl (by simpa [hdelimited] using hread)
    | some u => exact .inr (by simpa [hdelimited] using hread)⟩

/-- Test strings stand in the source as they are, or as a spelling of the empty one. -/
structure TestsStandIn (source : String) (tests : List Token) : Prop where
  exists_text : ∀ t ∈ tests, ∃ text, Text.slice? source t.span = some text ∧
    if t.value = "" then text ∈ epsilonSpellings else text = t.value
  ascending : Span.Ascending (tests.map (·.span))

/-- The parts of a description stand in the source. -/
structure StandsIn (source : String) (d : Description) : Prop where
  accepting : Text.Row source d.accepting
  start : Text.Row source d.start.toList
  others : Text.Row source d.others
  transitions : ReadFromRow source d.transitions
  tests : TestsStandIn source d.tests

theorem TestsStandIn.nil : TestsStandIn source [] := ⟨by simp, ⟨by simp, List.Pairwise.nil⟩⟩

theorem StandsIn.empty : ({} : Description).StandsIn source :=
  ⟨.nil, .nil, .nil, .compact? .nil, .nil⟩

/-- A part may be set to any row. -/
theorem StandsIn.set {d : Description} {ws : List Token} (h : d.StandsIn source)
    (hws : Text.Row source ws) (part : Section) : (d.set part ws).StandsIn source := by
  cases part with
  | accepting => exact { h with accepting := hws }
  | start => exact { h with start := hws.head? }
  | states => exact { h with others := hws }
  | transitions => exact { h with transitions := .read? hws }

/-! ## The legacy layout -/

/-- Lines as they are stand in the source. -/
theorem TestsStandIn.of_page {ls : List Token} (h : Text.Page source ls) :
    TestsStandIn source ls where
  exists_text l hl :=
    ⟨l.value, Text.slice?_of_placed (h.placed l hl), by rw [if_neg (h.isLine l hl).ne_empty]⟩
  ascending := h.ascending

theorem StandsIn.readLegacyBody {d : Description} {line : Token} {rest : List Token}
    (h : d.StandsIn source) (hpage : Text.Page source (line :: rest)) :
    (d.readLegacyBody line rest).1.StandsIn source :=
  { h with
    transitions := .compact? (hpage.row List.mem_cons_self)
    tests := .of_page hpage.tail }

theorem standsIn_readLegacy (flagAmbiguity : Bool) (eof : Span) {ls : List Token}
    (h : Text.Page source ls) : (readLegacy flagAmbiguity eof ls).1.StandsIn source := by
  match ls, h with
  | [], _ => exact .empty
  | [accepting], h => exact StandsIn.empty.set (h.row (by simp)) .accepting
  | accepting :: start :: rest, h =>
    have hfront := (StandsIn.empty.set (h.row (l := accepting) (by simp)) .accepting).set
      (h.row (l := start) (by simp)) .start
    simp only [readLegacy]
    cases rest with
    | nil => exact hfront
    | cons third rest =>
      have hrest := h.tail.tail
      dsimp only
      split
      · exact hfront.readLegacyBody hrest
      · -- the third line lists states, and the transitions stand on the next one
        have hothers := hfront.set (hrest.row List.mem_cons_self) .states
        cases rest with
        | nil => exact hothers
        | cons line rest => exact hothers.readLegacyBody hrest.tail

/-! ## The sectioned layout -/

/-- A test string keeps its place when a spelling of the empty string is replaced. -/
theorem exists_text_testString {l : Token} (hplaced : l.PlacedIn (.ofSource source))
    (hline : Text.IsLine l.value) :
    ∃ text, Text.slice? source (testString l).span = some text ∧
      if (testString l).value = "" then text ∈ epsilonSpellings
      else text = (testString l).value := by
  have hslice := Text.slice?_of_placed hplaced
  simp only [testString]
  split
  · next hepsilon => exact ⟨l.value, hslice, by simpa using hepsilon⟩
  · exact ⟨l.value, hslice, by rw [if_neg hline.ne_empty]⟩

@[simp] theorem span_testString (l : Token) : (testString l).span = l.span := by
  simp only [testString]
  split <;> rfl

theorem testsStandIn_readTests {line value : Token} {rest : List Token}
    (h : Text.Page source (line :: rest)) (hvalue : value.PlacedIn (.ofToken line)) :
    TestsStandIn source (readTests value rest) := by
  have hspans : (rest.map testString).map (·.span) = rest.map (·.span) := by simp
  -- the tests on the lines that follow
  have hrest : TestsStandIn source (rest.map testString) := by
    refine ⟨fun t ht => ?_, hspans ▸ h.tail.ascending⟩
    obtain ⟨l, hl, rfl⟩ := List.mem_map.mp ht
    exact exists_text_testString (h.tail.placed l hl) (h.tail.isLine l hl)
  obtain ⟨p, hp, rfl⟩ := hvalue
  simp only [readTests]
  rw [Piece.ofToken_token]
  by_cases hne : p.trim.isEmpty = true
  · rw [if_pos hne]
    exact hrest
  · -- the test on the line itself stands in front of them
    rw [if_neg hne, List.singleton_append]
    have hplaced := h.placed line List.mem_cons_self
    obtain ⟨hinline, hinlineLine⟩ := Piece.placedIn_of_trim hp
      (h.isLine line List.mem_cons_self) (by simpa [Piece.isEmpty] using hne)
    have hmarks := (hinline.trans hplaced).marksLine hinlineLine
    refine ⟨fun t ht => ?_, ?_⟩
    · rcases List.mem_cons.mp ht with rfl | ht
      · exact exists_text_testString (hinline.trans hplaced) hinlineLine
      · exact hrest.exists_text t ht
    · rw [List.map_cons, span_testString]
      refine hrest.ascending.cons hmarks.start_lt_stop fun span hspan => ?_
      rw [hspans] at hspan
      have hlater := (List.pairwise_cons.mp h.ascending.pairwise).1 span hspan
      exact Nat.lt_of_le_of_lt (hplaced.stop_ofToken ▸ hinline.stop_le) hlater

/-- Reading the lines of sections keeps what was read in the source. -/
theorem standsIn_readSections {p : Progress} (hp : p.description.StandsIn source)
    {body : List Token} (h : Text.Page source body) :
    (readSections p body).description.StandsIn source := by
  induction body generalizing p with
  | nil => exact hp
  | cons line rest ih =>
    have hheader := h.header List.mem_cons_self
    rw [readSections]
    cases hof : Header.ofLine line with
    | malformed => exact ih hp h.tail
    | unknown key => exact ih hp h.tail
    | known part key value =>
      rw [hof] at hheader
      refine ih ?_ h.tail
      rw [Progress.description_set]
      exact hp.set (.words (hheader.2.trans (h.placed line List.mem_cons_self))) part
    | tests value =>
      rw [hof] at hheader
      exact { hp with tests := testsStandIn_readTests h hheader }

/-- The parts of a description stand in its source. -/
theorem standsIn_parse (source : String) (options : Options) :
    (Description.parse source options).1.StandsIn source := by
  have hpage := Text.Page.lines source
  simp only [parse]
  split
  · rw [readSectioned_eq]
    exact standsIn_readSections .empty (hpage.sublist (sectionedBody_suffix _).sublist)
  · exact standsIn_readLegacy _ _ hpage

/-! ## Reports -/

/-- Every kind of report on reading marks a line, its key or a word of its value. -/
theorem ReadingReport.faithful {ls : List Token} {report : Diagnostic}
    (hpage : Text.Page source ls) (h : ReadingReport (endOfSource source) ls report) :
    report.Faithful source := by
  have hword {content word : Token} (hcontent : IsContent ls content)
      (hw : word ∈ content.words) : word.span.MarksLine source := by
    rcases hcontent with hl | ⟨line, hl, part, key, hof⟩
    · exact (hpage.row hl).marksLine hw
    · have hheader := hpage.header hl
      rw [hof] at hheader
      exact (Text.Row.words (hheader.2.trans (hpage.placed line hl))).marksLine hw
  have hkey {l key : Token} (hl : l ∈ ls)
      (hkey : key.PlacedIn (.ofToken l) ∧ Text.IsLine key.value) : key.span.MarksLine source :=
    (hkey.1.trans (hpage.placed l hl)).marksLine hkey.2
  cases h with
  | missingLine hmessage hspan =>
    exact Diagnostic.faithful_error (fun span h => .inl (hspan span h)) _ _
  | missingStart => exact (Diagnostic.faithful_error (by simp) _ _).withHelp _
  | emptyStart hl => exact Diagnostic.faithful_error_at (hpage.marksLine hl) _ _
  | extraStartWord hcontent hw hmessage =>
    exact Diagnostic.faithful_warning (hword hcontent hw) _ _
  | malformedTransition hform hcontent hw =>
    exact (Diagnostic.faithful_warning (hword hcontent hw) _ _).withHelp _
  | ambiguousLine hl hmessage hhint =>
    exact (Diagnostic.faithful_warning (hpage.marksLine hl) _ _).withHelp _
  | malformedSection hl => exact Diagnostic.faithful_error_at (hpage.marksLine hl) _ _
  | unknownSection hl hof =>
    have hheader := hpage.header hl
    rw [hof] at hheader
    exact Diagnostic.faithful_warning (hkey hl hheader) _ _
  | duplicateSection hl hof =>
    have hheader := hpage.header hl
    rw [hof] at hheader
    exact Diagnostic.faithful_warning (hkey hl hheader.1) _ _

/-- Reports on compiling mark the names and the transitions that they are about. -/
theorem StandsIn.faithful_compile {d : Description} (h : d.StandsIn source) :
    ∀ report ∈ d.compile.2, report.Faithful source := by
  intro report hreport
  rcases mem_compile_snd hreport with ⟨name, hname, message, rfl⟩ | ⟨t, ht, issue, message, -, rfl⟩
  · refine Diagnostic.faithful_error_at ?_ _ _
    simp only [names, List.mem_append] at hname
    rcases hname with (hstart | haccepting) | hothers
    · exact h.start.marksLine hstart
    · exact h.accepting.marksLine haccepting
    · exact h.others.marksLine hothers
  · obtain ⟨read?, ws, hts, hws, -⟩ := h.transitions
    rw [hts] at ht
    obtain ⟨w, hw, hspan, -⟩ := mem_readTransitions.mp ht
    exact Diagnostic.faithful_warning (hspan ▸ hws.marksLine hw) _ _

/-! ## Main result -/

/-- Every part of the description is what stands in the source at its span, and within each list the
    spans are in order. -/
structure Faithful (source : String) (d : Description) : Prop where
  names : ∀ n ∈ d.names, Text.slice? source n.span = some n.value
  transitions : ∀ t ∈ d.transitions, ∃ word, Text.slice? source t.span = some word ∧
    Text.IsWord word ∧
      (Transition.compact? word = some t.value ∨ Transition.delimited? word = some t.value)
  tests : ∀ t ∈ d.tests, ∃ text, Text.slice? source t.span = some text ∧
    if t.value = "" then text ∈ epsilonSpellings else text = t.value
  ascending_accepting : Span.Ascending (d.accepting.map (·.span))
  ascending_others : Span.Ascending (d.others.map (·.span))
  ascending_transitions : Span.Ascending (d.transitions.map (·.span))
  ascending_tests : Span.Ascending (d.tests.map (·.span))

theorem StandsIn.faithful {d : Description} (h : d.StandsIn source) : d.Faithful source where
  names n hn := by
    simp only [Description.names, List.mem_append] at hn
    rcases hn with (hstart | haccepting) | hothers
    · exact Text.slice?_of_placed (h.start.placed n hstart)
    · exact Text.slice?_of_placed (h.accepting.placed n haccepting)
    · exact Text.slice?_of_placed (h.others.placed n hothers)
  transitions t ht := by
    obtain ⟨read?, ws, hts, hws, hforms⟩ := h.transitions
    rw [hts] at ht
    obtain ⟨w, hw, hspan, hread⟩ := mem_readTransitions.mp ht
    exact ⟨w.value, hspan ▸ Text.slice?_of_placed (hws.placed w hw), hws.isWord w hw,
      hforms _ _ hread⟩
  tests := h.tests.exists_text
  ascending_accepting := h.accepting.ascending
  ascending_others := h.others.ascending
  ascending_transitions := by
    obtain ⟨read?, ws, hts, hws, -⟩ := h.transitions
    rw [hts]
    exact hws.ascending.sublist (spans_readTransitions_sublist read? ws)
  ascending_tests := h.tests.ascending

end Description

/-- Every position that loading reports is faithful to the source.  The parts of the description are
    found at their spans, in order.  A note of the log, attached or not, has no place, or it is
    about the end of the source, or it marks part of a single line. -/
theorem load_faithful (source : String) (options : Options) :
    (Description.parse source options).1.Faithful source ∧
      ∀ d ∈ (load source options).log.entries, ∀ n ∈ d.notes, ∀ span, n.span? = some span →
        span = endOfSource source ∨ span.MarksLine source := by
  have hparse := Description.standsIn_parse source options
  refine ⟨hparse.faithful, fun d hd => ?_⟩
  rw [← Array.mem_toList_iff, toList_entries_load, List.mem_append] at hd
  rcases hd with hd | hd
  · exact (Description.readingReport_of_mem_parse hd).faithful (Text.Page.lines source)
  · exact hparse.faithful_compile d hd

end Acceptor
