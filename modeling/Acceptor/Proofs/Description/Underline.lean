import Acceptor.Proofs.Description.OneLine
import Acceptor.Proofs.Description.Continuation
import Acceptor.Proofs.Diagnostic.Lines

/-!
# The mark of a report stands below its text

A note about a stretch of a line is shown as a header, the line behind its number, and a row of
tildes.  The row is moved to the right by what stands in front of the stretch on the line that is
shown, number included, and there is one tilde for each character of the stretch, so the characters
above the tildes are those of the stretch.

All reports of `load` are of this kind: their places are stretches of lines, and every message
stands on one line, so a report is shown as at most four lines.

* `Text.exists_onLine`     stretches of lines
* `Note.render_onLine`     what is shown of a stretch
* `Text.above`             the characters above the tildes
* `brief_of_mem_load`      the messages of reports
* `underline_marks_text`
-/

namespace Acceptor

/-! ## Stretches of lines -/

/-- What stands at the span is the stretch `text` of the line with the given number, and on that
    line it stands between `left` and `right`. -/
structure Text.OnLine (source : String) (span : Span) (number : Nat) (left text right : String) :
    Prop where
  slice?_eq : slice? source span = some text
  /-- Lines are counted by the line feeds in front of them, and `left` is all there is in front of
      the stretch behind the last of these line feeds. -/
  exists_before : ∃ before, slice? source ⟨0, span.start⟩ = some before ∧
    number = before.toList.count '\n' + 1 ∧ (splitLines before).getLast? = some left
  line_eq : (splitLines source)[number - 1]? = some (left ++ text ++ right)

/-- The characters of a line as they are shown: without the carriage returns at its end, and with
    each tab as one space. -/
def Text.shown (line : String) : String := String.ofList (spaced (dropReturns line.toList))

theorem Text.LineAt.onLine {source text : String} {span : Span} {front left right rest : List Char}
    (h : LineAt source.toList span.start front left (text.toList ++ right) rest)
    (hslice : slice? source span = some text) :
    OnLine source span (front.count '\n' + 1) (String.ofList left) text (String.ofList right) where
  slice?_eq := hslice
  exists_before := by
    refine ⟨String.ofList (front ++ left), ?_, ?_, ?_⟩
    · rw [slice?_front, h.splitAtByte?_eq]
      rfl
    · rw [String.toList_ofList, h.count_eq]
    · simp only [splitLines]
      rw [String.toList_ofList, List.getLast?_map,
        getLast?_splitOn h.begins h.newline_not_mem_left]
      rfl
  line_eq := by
    have hline := splitLines_line h.begins h.newline_not_mem h.ends h.chars_eq_line
    rw [Nat.add_sub_cancel, hline, String.ofList_append, String.ofList_append,
      String.ofList_toList, String.append_assoc]

/-- A text without line feeds that is cut out of a source is a stretch of a line, and this is what
    is shown of it. -/
theorem Text.exists_onLine {source text : String} {span : Span}
    (hslice : slice? source span = some text) (htext : OneLine text) :
    ∃ number left right, OnLine source span number left text right ∧
      Snippet.of? source.toList span =
        some {
          number
          line := dropReturns (left ++ text ++ right).toList
          column := left.length
          width := text.length } := by
  obtain ⟨start, stop⟩ := span
  obtain ⟨before, after, hsource, rfl, rfl⟩ := slice?_eq_some_iff.mp hslice
  obtain ⟨front, left, right, rest, rfl, rfl, hfront, hline, hrest⟩ :=
    exists_line_at before htext after
  have hparts : source.toList = front ++ left ++ (text.toList ++ right ++ rest) := by
    rw [hsource]
    simp only [List.append_assoc]
  have hat : LineAt source.toList (byteLength (front ++ left)) front left (text.toList ++ right)
      rest :=
    ⟨hparts, rfl, hfront, by rwa [← List.append_assoc left], hrest⟩
  refine ⟨_, _, _, hat.onLine hslice, ?_⟩
  have hshown := Snippet.of?_stretch hfront hline hrest
  rw [List.append_assoc left, ← hat.chars_eq_line, String.length_toList] at hshown
  simpa using hshown

namespace Text

/-- The characters above the tildes are those of the text, unless it reaches into the carriage
    returns at the end of the line. -/
theorem above (gutter left : String) {text right : String}
    (hreach : left.length + text.length ≤ (shown (left ++ text ++ right)).length) :
    ((gutter ++ shown (left ++ text ++ right)).toList.drop (gutter.length + left.length)).take
      text.length = spaced text.toList := by
  -- what is shown begins with `left` and the text
  have hprefix : left.toList ++ text.toList <+:
      dropReturns (left.toList ++ text.toList ++ right.toList) := by
    refine List.prefix_of_prefix_length_le (List.prefix_append _ _) (dropReturns_isPrefix _) ?_
    simp only [shown] at hreach
    rw [String.length_ofList, length_spaced, String.toList_append, String.toList_append] at hreach
    rwa [List.length_append, String.length_toList, String.length_toList]
  obtain ⟨rest, hrest⟩ := hprefix
  have hshown : (gutter ++ shown (left ++ text ++ right)).toList =
      gutter.toList ++ (spaced left.toList ++ (spaced text.toList ++ spaced rest)) := by
    simp only [shown]
    rw [String.toList_append, String.toList_ofList, String.toList_append, String.toList_append,
      ← hrest, spaced_append, spaced_append, List.append_assoc]
  have hlength (t : String) : (spaced t.toList).length = t.length := by
    rw [length_spaced, String.length_toList]
  rw [hshown, ← List.drop_drop, List.drop_left' String.length_toList,
    List.drop_left' (hlength left), List.take_left' (hlength text)]

end Text

/-- The plain rendering of a note about a stretch of a line. -/
theorem Note.render_onLine {source text : String} {n : Note} {span : Span}
    (hspan : n.span? = some span) (hslice : Text.slice? source span = some text)
    (htext : Text.OneLine text) :
    ∃ number left right, Text.OnLine source span number left text right ∧
      let gutter := toString number ++ ": "
      n.render source false = n.level.label ++ ": " ++ n.message ++ "\n" ++
        (gutter ++ Text.shown (left ++ text ++ right) ++ "\n") ++
        ("".pushn ' ' (gutter.length + left.length) ++ "".pushn '~' (max 1 text.length) ++
          "\n") := by
  obtain ⟨number, left, right, honLine, hof⟩ := Text.exists_onLine hslice htext
  refine ⟨number, left, right, honLine, ?_⟩
  intro gutter
  have hsnippet := snippet?_of_span?_eq_some source hspan
  have hgutter : gutter.length = (toString number).length + 2 :=
    String.length_append _ _
  rw [render_of_snippet?_eq_some (hsnippet.trans hof), hgutter, ← Text.pushn_add]
  simp [headerLine, Snippet.sourceLine, Snippet.markLine, Text.shown, gutter, String.append_assoc]

/-! ## Reports -/

/-- Every message stands on one line, and at most one note is attached, which is about no place. -/
structure Diagnostic.Brief (d : Diagnostic) : Prop where
  oneLine : ∀ n ∈ d.notes, Text.OneLine n.message
  length_attached : d.attached.length ≤ 1
  span?_attached : ∀ n ∈ d.attached, n.span? = none

namespace Diagnostic

theorem brief_of_note {n : Note} (h : Text.OneLine n.message) :
    ({ note := n } : Diagnostic).Brief where
  oneLine m hm := by
    obtain rfl := List.mem_singleton.mp hm
    exact h
  length_attached := Nat.zero_le 1
  span?_attached _ hm := nomatch hm

/-- A hint takes the place of what was attached before. -/
theorem Brief.withHelp {d : Diagnostic} (h : d.Brief) {hint : String} (hhint : Text.OneLine hint) :
    (d.withHelp hint).Brief where
  oneLine n hn := by
    rcases List.mem_cons.mp hn with rfl | hn
    · exact h.oneLine d.note List.mem_cons_self
    · obtain rfl := List.mem_singleton.mp hn
      exact hhint
  length_attached := Nat.le_refl 1
  span?_attached n hn := by
    obtain rfl := List.mem_singleton.mp hn
    rfl

end Diagnostic

theorem BuildError.oneLine_message (e : BuildError) : Text.OneLine e.message := by
  cases e with
  | unknownState name =>
    show Text.OneLine ("state " ++ Text.quoteString name ++ " is not defined")
    simp only [Text.oneLine_append]
    exact ⟨⟨by simp [Text.OneLine], Text.oneLine_quoteString name⟩, by simp [Text.OneLine]⟩
  | tooManyStates =>
    show Text.OneLine ("too many states defined (limit is " ++ toString stateLimit ++ ")")
    simp only [Text.oneLine_append]
    exact ⟨⟨by simp [Text.OneLine], Text.oneLine_toString stateLimit⟩, by simp [Text.OneLine]⟩

namespace Description

theorem ReadingReport.brief {eof : Span} {ls : List Token} {report : Diagnostic}
    (h : ReadingReport eof ls report) : report.Brief := by
  cases h with
  | missingLine hmessage hspan => exact Diagnostic.brief_of_note hmessage
  | missingStart =>
    exact (Diagnostic.brief_of_note (by simp [Text.OneLine])).withHelp (by simp [Text.OneLine])
  | emptyStart hl => exact Diagnostic.brief_of_note (by simp [Text.OneLine])
  | extraStartWord hcontent hw hmessage => exact Diagnostic.brief_of_note hmessage
  | malformedTransition hform hcontent hw =>
    refine (Diagnostic.brief_of_note ?_).withHelp ?_
    · simp only [Text.oneLine_append]
      exact ⟨⟨by simp [Text.OneLine], Text.oneLine_quoteString _⟩, by simp [Text.OneLine]⟩
    · exact Text.oneLine_append.mpr ⟨by simp [Text.OneLine], hform⟩
  | ambiguousLine hl hmessage hhint => exact (Diagnostic.brief_of_note hmessage).withHelp hhint
  | malformedSection hl => exact Diagnostic.brief_of_note (by simp [Text.OneLine])
  | unknownSection hl hof =>
    refine Diagnostic.brief_of_note ?_
    simp only [Text.oneLine_append]
    exact ⟨⟨by simp [Text.OneLine], Text.oneLine_quoteString _⟩, by simp [Text.OneLine]⟩
  | duplicateSection hl hof => exact Diagnostic.brief_of_note (by simp [Text.OneLine])

theorem Draft.brief_of_nameReport? {accepting : Std.ExtTreeSet String} {a : Automaton}
    {name : Token} {report : Diagnostic} (h : nameReport? accepting a name = some report) :
    report.Brief := by
  simp only [nameReport?] at h
  split at h
  · cases h
  · obtain rfl := Option.some.inj h
    exact Diagnostic.brief_of_note (BuildError.oneLine_message _)

theorem Draft.brief_of_transitionReport? {a : Automaton} {t : Located Transition}
    {report : Diagnostic} (h : transitionReport? a t = some report) : report.Brief := by
  simp only [transitionReport?] at h
  split at h
  · cases h
  · obtain rfl := Option.some.inj h
    refine Diagnostic.brief_of_note ?_
    simp only [Text.oneLine_append]
    exact ⟨⟨⟨⟨⟨⟨by simp [Text.OneLine], Text.oneLine_quoteString _⟩, by simp [Text.OneLine]⟩,
      Text.oneLine_quoteChar _⟩, by simp [Text.OneLine]⟩, Text.oneLine_quoteString _⟩,
      by simp [Text.OneLine]⟩
  · obtain rfl := Option.some.inj h
    refine Diagnostic.brief_of_note ?_
    exact Text.oneLine_append.mpr ⟨BuildError.oneLine_message _, by simp [Text.OneLine]⟩

theorem brief_of_mem_compile {d : Description} {report : Diagnostic} (h : report ∈ d.compile.2) :
    report.Brief := by
  rw [compile_snd, List.mem_append] at h
  rcases h with h | h
  · obtain ⟨⟨name, _⟩, hname, rfl⟩ := List.mem_filterMap.mp h
    obtain ⟨-, a, ha⟩ := Draft.exists_report?_of_mem_outcomes hname
    exact Draft.brief_of_nameReport? ha.symm
  · obtain ⟨⟨t, _⟩, ht, rfl⟩ := List.mem_filterMap.mp h
    obtain ⟨-, a, ha⟩ := Draft.exists_report?_of_mem_outcomes ht
    exact Draft.brief_of_transitionReport? ha.symm

end Description

theorem brief_of_mem_load {source : String} {options : Options} {d : Diagnostic}
    (hd : d ∈ (load source options).log.entries) : d.Brief := by
  rw [← Array.mem_toList_iff, toList_entries_load, List.mem_append] at hd
  rcases hd with hread | hcompile
  · exact (Description.readingReport_of_mem_parse hread).brief
  · exact Description.brief_of_mem_compile hcompile

/-- Every place of a report is a stretch of a line. -/
theorem Diagnostic.Faithful.exists_stretch {source : String} {d : Diagnostic}
    (h : d.Faithful source) {n : Note} (hn : n ∈ d.notes) {span : Span}
    (hspan : n.span? = some span) :
    ∃ text, Text.slice? source span = some text ∧ Text.OneLine text := by
  rcases h n hn span hspan with rfl | hmarks
  · -- nothing stands at the end of the source
    refine ⟨"", Text.slice?_eq_some_iff.mpr ⟨source.toList, [], by simp, ?_, ?_⟩,
      by simp [Text.OneLine]⟩
    · rfl
    · rfl
  · obtain ⟨text, hslice, hline⟩ := hmarks.exists_text
    exact ⟨text, hslice, hline.no_newline⟩

/-! ## Lines of reports -/

theorem Note.oneLine_headerLine {n : Note} (h : Text.OneLine n.message) :
    Text.OneLine (n.headerLine false) := by
  have hlabel : Text.OneLine n.level.label := by
    cases n.level <;> decide
  have hcolon : Text.OneLine ": " := by decide
  simp [headerLine, hlabel, hcolon, h]

theorem Snippet.oneLine_markLine (s : Snippet) : Text.OneLine (s.markLine false) := by
  have htildes : Text.OneLine ("".pushn '~' (max 1 s.width)) := Text.oneLine_pushn (by decide) _
  simp [markLine, Text.oneLine_blanks, htildes]

theorem Snippet.oneLine_sourceLine {s : Snippet} (h : '\n' ∉ s.line) :
    Text.OneLine (s.sourceLine false) := by
  have hnumber : Text.OneLine (toString s.number) := Text.oneLine_toString s.number
  have hcolon : Text.OneLine ": " := by decide
  have hshown := Text.oneLine_spaced h
  simp only [sourceLine, Text.oneLine_append, Style.paint_false, Text.oneLine_empty, true_and,
    and_true]
  exact ⟨⟨hnumber, hcolon⟩, hshown⟩

theorem Note.oneLine_shownLines {source : String} {n : Note} (h : Text.OneLine n.message) :
    ∀ l ∈ n.shownLines source false, Text.OneLine l := by
  intro l hl
  simp only [shownLines] at hl
  rcases List.mem_cons.mp hl with rfl | hl
  · exact oneLine_headerLine h
  · cases hsnippet : n.snippet? source with
    | none =>
      rw [hsnippet] at hl
      cases hl
    | some s =>
      obtain ⟨span, -, hof⟩ := Option.bind_eq_some_iff.mp hsnippet
      rw [hsnippet] at hl
      rcases List.mem_cons.mp hl with rfl | hl
      · exact Snippet.oneLine_sourceLine (Snippet.line_of_of?_eq_some hof).2
      · obtain rfl := List.mem_singleton.mp hl
        exact s.oneLine_markLine

/-- A report with a place is shown with two lines more than its notes have, the one of the place and
    the one of the mark. -/
theorem Diagnostic.Brief.splitLines_render {source : String} {d : Diagnostic} (h : d.Brief)
    (hfaithful : d.Faithful source) :
    ∃ ls, Text.splitLines (d.render source false) = ls ++ [""] ∧
      ls.length = 1 + (if d.note.span?.isSome then 2 else 0) + d.attached.length := by
  have hlines : ∀ l ∈ d.shownLines source false, Text.OneLine l := by
    intro l hl
    obtain ⟨n, hn, hl⟩ := List.mem_flatMap.mp hl
    exact Note.oneLine_shownLines (h.oneLine n hn) l hl
  have hsnippet : (d.note.snippet? source).isSome = d.note.span?.isSome := by
    cases hspan : d.note.span? with
    | none =>
      rw [Note.snippet?_of_span?_eq_none source hspan]
      rfl
    | some span =>
      obtain ⟨cut, hcut⟩ := hfaithful.exists_cut List.mem_cons_self hspan
      have hne : Snippet.of? source.toList span ≠ none := by
        rw [ne_eq, Snippet.of?_eq_none_iff, hcut]
        simp
      rw [Note.snippet?_of_span?_eq_some source hspan, Option.isSome_iff_ne_none.mpr hne]
      rfl
  -- the hints have no place, so each of them is a header only
  have hattached : ∀ n ∈ d.attached, (n.shownLines source false).length = 1 := by
    intro n hn
    rw [Note.length_shownLines, Note.snippet?_of_span?_eq_none source (h.span?_attached n hn)]
    rfl
  refine ⟨d.shownLines source false, ?_, ?_⟩
  · rw [render_eq_shownLines, Text.splitLines_join hlines]
  · rw [shownLines, notes, List.flatMap_cons, List.length_append, Note.length_shownLines, hsnippet,
      List.length_flatMap, List.map_congr_left hattached]
    simp

/-! ## Main result -/

/-- The mark of a note stands below its text.  A chain of notes is shown note by note.  A note whose
    span is a stretch of a line, one that begins behind the line feeds of what is in front of it
    and holds no line feed itself, is shown in plain text as its level and message, the line behind
    its number, with tabs as spaces and without carriage returns at its end, and blanks with one
    tilde for each character of the stretch behind them, at least one.  There are as many blanks as
    the number, the colon and the line in front of the stretch have characters, so the characters
    above the tildes are those of the stretch, unless it reaches into the carriage returns.

    All places that `load` reports are such stretches, and every report is shown as a line for the
    message, two more if there is a place, and one more if there is a hint. -/
theorem underline_marks_text (source : String) :
    (∀ d : Diagnostic,
      d.render source false = String.join (d.notes.map (·.render source false))) ∧
    (∀ n : Note, ∀ span text, n.span? = some span → Text.slice? source span = some text →
      Text.OneLine text →
      ∃ number left right, Text.OnLine source span number left text right ∧
        let gutter := toString number ++ ": "
        let shown := Text.shown (left ++ text ++ right)
        n.render source false = n.level.label ++ ": " ++ n.message ++ "\n" ++
          (gutter ++ shown ++ "\n") ++
          ("".pushn ' ' (gutter.length + left.length) ++ "".pushn '~' (max 1 text.length) ++
            "\n") ∧
        (left.length + text.length ≤ shown.length →
          ((gutter ++ shown).toList.drop (gutter.length + left.length)).take text.length =
            Text.spaced text.toList)) ∧
    ∀ options, ∀ d ∈ (load source options).log.entries,
      (∀ n ∈ d.notes, ∀ span, n.span? = some span →
        ∃ text, Text.slice? source span = some text ∧ Text.OneLine text) ∧
      (∀ n ∈ d.attached, n.span? = none) ∧ d.attached.length ≤ 1 ∧
      ∃ ls, Text.splitLines (d.render source false) = ls ++ [""] ∧
        ls.length = 1 + (if d.note.span?.isSome then 2 else 0) + d.attached.length := by
  refine ⟨Diagnostic.render_eq source false, fun n span text hspan hslice htext => ?_,
    fun options d hd => ?_⟩
  · obtain ⟨number, left, right, honLine, hrender⟩ := Note.render_onLine hspan hslice htext
    exact ⟨number, left, right, honLine, hrender, Text.above _ left⟩
  · have hfaithful := faithful_of_mem_load hd
    have hbrief := brief_of_mem_load hd
    exact ⟨fun n hn span hspan => hfaithful.exists_stretch hn hspan, hbrief.span?_attached,
      hbrief.length_attached, hbrief.splitLines_render hfaithful⟩

example : ({ level := .warning, message := "odd", span? := some ⟨3, 7⟩ } : Note).render
    "a\n\té b\x0d\x0d\n" false = "warning: odd\n2:  é b\n    ~~~\n" := by decide

end Acceptor
