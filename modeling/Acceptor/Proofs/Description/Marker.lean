import Acceptor.Proofs.Description.Moved
import Acceptor.Proofs.Text.LineEnds

/-!
# The marker and the sectioned layout

A source is sectioned if its first line is the marker or if the sectioned layout is asked for.  Both
ways lead to the same reading: putting the marker in front of a source, behind blanks perhaps, and
asking for the sectioned layout differ in nothing but the places of what is read and reported, which
are further back by the length of what was put in front.

* `Span.Shifted`              places that are further back by so many bytes
* `Description.Moved.shift_eq`, `Diagnostic.Moved.shift_eq`
* `Text.linesAt_shifted`      the lines of a text that stands further back
* `Text.lines_marked`         the lines of a source with the marker in front
* `load_marked`
-/

namespace Acceptor

/-! ## Shifting places -/

/-- The span that many bytes further back. -/
def Span.shift (k : Nat) (span : Span) : Span := ⟨k + span.start, k + span.stop⟩

/-- The same value at a place further back. -/
def Located.shift {α : Type} (k : Nat) (t : Located α) : Located α := ⟨t.value, t.span.shift k⟩

/-- The same note about a place further back; one without a place stays without. -/
def Note.shift (k : Nat) (n : Note) : Note := { n with span? := n.span?.map (Span.shift k) }

/-- The diagnostic with every note of its chain about a place further back. -/
def Diagnostic.shift (k : Nat) (d : Diagnostic) : Diagnostic :=
  ⟨d.note.shift k, d.attached.map (Note.shift k)⟩

/-- The log with every entry about a place further back. -/
def Log.shift (k : Nat) (log : Log) : Log :=
  { log with entries := log.entries.map (Diagnostic.shift k) }

/-- The description with all its parts further back. -/
def Description.shift (k : Nat) (d : Description) : Description where
  accepting := d.accepting.map (Located.shift k)
  start := d.start.map (Located.shift k)
  others := d.others.map (Located.shift k)
  transitions := d.transitions.map (Located.shift k)
  tests := d.tests.map (Located.shift k)

/-- The second span is the first one, that many bytes further back. -/
def Span.Shifted (k : Nat) (span span' : Span) : Prop := span.shift k = span'

variable {k : Nat}

theorem Located.Moved.shift_eq {α : Type} {t t' : Located α} (h : t.Moved (Span.Shifted k) t') :
    t.shift k = t' := by
  obtain ⟨value, span⟩ := t
  obtain ⟨value', span'⟩ := t'
  obtain ⟨rfl, rfl⟩ := h
  rfl

theorem Located.Moved.map_shift_eq {α : Type} {ts ts' : List (Located α)}
    (h : List.Forall₂ (Located.Moved (Span.Shifted k)) ts ts') :
    ts.map (Located.shift k) = ts' := by
  have hmap := map_eq_of_forall₂ (g := id) (fun _ _ ht => Located.Moved.shift_eq ht) h
  rwa [List.map_id] at hmap

theorem Note.Moved.shift_eq {n n' : Note} (h : n.Moved (Span.Shifted k) n') : n.shift k = n' := by
  obtain ⟨level, message, span?, issue?⟩ := n
  obtain ⟨level', message', span?', issue?'⟩ := n'
  obtain ⟨rfl, rfl, rfl, hspan⟩ := h
  cases hspan with
  | none => rfl
  | some hspan =>
    cases hspan
    rfl

theorem Diagnostic.Moved.shift_eq {d d' : Diagnostic} (h : d.Moved (Span.Shifted k) d') :
    d.shift k = d' := by
  obtain ⟨hnote, hattached⟩ := List.forall₂_cons.mp h
  have hmap := map_eq_of_forall₂ (g := id) (fun _ _ hn => Note.Moved.shift_eq hn) hattached
  rw [List.map_id] at hmap
  simp only [Diagnostic.shift]
  rw [hnote.shift_eq, hmap]

theorem Diagnostic.Moved.map_shift_eq {ds ds' : List Diagnostic}
    (h : List.Forall₂ (Diagnostic.Moved (Span.Shifted k)) ds ds') :
    ds.map (Diagnostic.shift k) = ds' := by
  have hmap := map_eq_of_forall₂ (g := id) (fun _ _ hd => Diagnostic.Moved.shift_eq hd) h
  rwa [List.map_id] at hmap

theorem Description.Moved.shift_eq {d d' : Description} (h : d.Moved (Span.Shifted k) d') :
    d.shift k = d' := by
  have hstart : d.start.map (Located.shift k) = d'.start := by
    have hmoved := h.start
    generalize d.start = start?, d'.start = start?' at hmoved
    cases hmoved with
    | none => rfl
    | some ht => exact congrArg some ht.shift_eq
  simp only [shift]
  rw [Located.Moved.map_shift_eq h.accepting, hstart, Located.Moved.map_shift_eq h.others,
    Located.Moved.map_shift_eq h.transitions, Located.Moved.map_shift_eq h.tests]

/-- Logs with shifted entries. -/
theorem Log.shift_eq {log log' : Log}
    (h : List.Forall₂ (Diagnostic.Moved (Span.Shifted k)) log.entries.toList log'.entries.toList)
    (herror : log.hasError = log'.hasError) : log.shift k = log' := by
  obtain ⟨entries, hasError⟩ := log
  obtain ⟨entries', hasError'⟩ := log'
  obtain rfl : hasError = hasError' := herror
  have hentries : entries.map (Diagnostic.shift k) = entries' := by
    apply Array.toList_inj.mp
    rw [Array.toList_map]
    exact Diagnostic.Moved.map_shift_eq h
  simp only [shift]
  rw [hentries]

/-! ## Lines -/

namespace Text

/-- All stretches of a text that stands further back are further back. -/
theorem moved_shifted (k : Nat) (cs : List Char) :
    (⟨0, cs⟩ : Piece).Moved (Span.Shifted k) ⟨k, cs⟩ where
  chars_eq := rfl
  span_part before mid after _ := by
    simp only [Span.Shifted, Span.shift, Piece.part, Piece.token, Piece.stop, Nat.zero_add,
      Nat.add_assoc]

/-- The lines of a text that stands further back are further back. -/
theorem linesAt_shifted (k : Nat) (source : String) :
    List.Forall₂ (Located.TextMoved (Span.Shifted k)) (lines source)
      (linesAt k source.toList) :=
  (moved_shifted k source.toList).linesAt

/-- A text of blanks has no lines. -/
theorem linesAt_of_blank (base : Nat) {xs : List Char} (hxs : '\n' ∉ xs)
    (h : ∀ c ∈ xs, isBlank c = true) : linesAt base xs = [] := by
  rw [linesAt_of_newline_not_mem base hxs, trim_of_blank h]
  rfl

/-- Behind blanks the marker is the only line. -/
theorem exists_linesAt_marker (base : Nat) {bs : List Char} (h : ∀ c ∈ bs, isBlank c = true) :
    ∃ marker, linesAt base (bs ++ "%dfa".toList) = [marker] ∧ marker.value = sectionedMarker := by
  induction bs using line_induction generalizing base with
  | last xs hxs =>
    have hline : '\n' ∉ xs ++ "%dfa".toList := by simp [hxs]
    have hchars : (⟨base, xs ++ "%dfa".toList⟩ : Piece).trim.chars = "%dfa".toList :=
      congrArg Piece.chars (trim_append_cons base h (c := '%') (by decide) ['d', 'f', 'a'])
    have hempty : (trim (xs ++ "%dfa".toList)).isEmpty = false := congrArg List.isEmpty hchars
    rw [linesAt_of_newline_not_mem base hline, hempty]
    exact ⟨_, rfl, congrArg String.ofList hchars⟩
  | next xs ys hxs ih =>
    have hfirst : ∀ c ∈ xs, isBlank c = true := fun c hc => h c (by simp [hc])
    have hrest : ∀ c ∈ ys, isBlank c = true := fun c hc => h c (by simp [hc])
    obtain ⟨marker, hlines, hmarker⟩ := ih (base + byteLength xs + 1) hrest
    refine ⟨marker, ?_, hmarker⟩
    rw [List.append_assoc, List.cons_append, linesAt_append_newline,
      linesAt_of_blank base hxs hfirst, hlines]
    rfl

/-- The lines of a source with the marker in front of it, behind blanks. -/
theorem lines_marked {blanks : String} (h : ∀ c ∈ blanks.toList, isBlank c = true)
    (source : String) :
    ∃ marker, marker.value = sectionedMarker ∧
      lines (blanks ++ "%dfa\n" ++ source) =
        marker :: linesAt (blanks.utf8ByteSize + 5) source.toList := by
  obtain ⟨marker, hlines, hmarker⟩ := exists_linesAt_marker 0 h
  have hsplit : blanks ++ "%dfa\n" ++ source = blanks ++ "%dfa" ++ "\n" ++ source := by
    rw [show "%dfa\n" = "%dfa" ++ "\n" from rfl, ← String.append_assoc]
  have hchars : (blanks ++ "%dfa").toList = blanks.toList ++ "%dfa".toList := String.toList_append
  have hlength : byteLength (blanks ++ "%dfa").toList + 1 = blanks.utf8ByteSize + 5 := by
    rw [hchars, byteLength_append, byteLength_toList]
    rfl
  have hfront : lines (blanks ++ "%dfa") = [marker] := by
    rw [← hlines, ← hchars]
    rfl
  exact ⟨marker, hmarker, by rw [hsplit, lines_append_newline, hfront, hlength]; rfl⟩

end Text

/-! ## Reading -/

namespace Description

/-- The marker in front of a source is not read as a section. -/
theorem readSectioned_marked {source blanks : String}
    (hsource : (Text.lineTexts source.toList).head? ≠ some sectionedMarker)
    (hblanks : ∀ c ∈ blanks.toList, Text.isBlank c = true) :
    ReadMoved (Span.Shifted (blanks.utf8ByteSize + 5)) (readSectioned (Text.lines source))
      (readSectioned (Text.lines (blanks ++ "%dfa\n" ++ source))) := by
  obtain ⟨marker, hmarker, hlines⟩ := Text.lines_marked hblanks source
  have hunmarked : sectionedBody (Text.lines source) = Text.lines source := by
    rw [← Text.map_value_lines] at hsource
    simp only [sectionedBody]
    cases hfirst : Text.lines source with
    | nil => rfl
    | cons first rest =>
      rw [hfirst] at hsource
      have hvalue : first.value ≠ sectionedMarker := fun h => hsource (congrArg some h)
      exact if_neg (by simpa using hvalue)
  have hbody : sectionedBody (marker :: Text.linesAt (blanks.utf8ByteSize + 5) source.toList) =
      Text.linesAt (blanks.utf8ByteSize + 5) source.toList :=
    if_pos (by simpa using hmarker)
  apply readSectioned_moved_of_body
  rw [hlines, hbody, hunmarked]
  exact Text.linesAt_shifted _ source

/-- Both ways lead to the sectioned layout. -/
theorem parse_marked_moved {source blanks : String} {options forced : Options}
    (hsource : (Text.lineTexts source.toList).head? ≠ some sectionedMarker)
    (hblanks : ∀ c ∈ blanks.toList, Text.isBlank c = true) (hoptions : options.layout ≠ .legacy)
    (hforced : forced.layout = .sectioned) :
    ReadMoved (Span.Shifted (blanks.utf8ByteSize + 5)) (parse source forced)
      (parse (blanks ++ "%dfa\n" ++ source) options) := by
  obtain ⟨marker, hmarker, hlines⟩ := Text.lines_marked hblanks source
  have hsectioned :
      options.layout.isSectioned (Text.lines (blanks ++ "%dfa\n" ++ source)) = true := by
    cases hlayout : options.layout with
    | auto =>
      rw [hlines]
      simpa [Layout.isSectioned] using hmarker
    | legacy => exact absurd hlayout hoptions
    | sectioned => rfl
  have hforcedSectioned : forced.layout.isSectioned (Text.lines source) = true := by
    rw [hforced]
    rfl
  simp only [parse]
  rw [if_pos hsectioned, if_pos hforcedSectioned]
  exact readSectioned_marked hsource hblanks

end Description

/-! ## Main result -/

/-- The marker and asking for the sectioned layout are the same up to places.  If the first
    non-blank line of a source is not the marker, putting blanks, the marker and a line feed in
    front of it, and not asking for the legacy layout, gives the automaton, the tests and the
    reports of reading the source in the sectioned layout.  All that is described and all reports
    stand further back, by the length of the blanks, the marker and the line feed in bytes. -/
theorem load_marked {source blanks : String} {options forced : Options}
    (hsource : (Text.lineTexts source.toList).head? ≠ some sectionedMarker)
    (hblanks : ∀ c ∈ blanks.toList, Text.isBlank c = true) (hoptions : options.layout ≠ .legacy)
    (hforced : forced.layout = .sectioned) :
    let marked := blanks ++ "%dfa\n" ++ source
    let k := blanks.utf8ByteSize + 5
    Description.parse marked options =
        ((Description.parse source forced).1.shift k,
          (Description.parse source forced).2.map (Diagnostic.shift k)) ∧
      (load marked options).automaton = (load source forced).automaton ∧
      (load marked options).tests = (load source forced).tests ∧
      (load marked options).log = (load source forced).log.shift k := by
  intro marked k
  obtain ⟨hdescription, hfound⟩ :=
    Description.parse_marked_moved hsource hblanks hoptions hforced
  obtain ⟨hautomaton, hcompiled⟩ := Description.compile_moved hdescription
  have hentries : List.Forall₂ (Diagnostic.Moved (Span.Shifted k))
      (load source forced).log.entries.toList (load marked options).log.entries.toList := by
    rw [toList_entries_load, toList_entries_load]
    exact List.rel_append hfound hcompiled
  have herror : (load source forced).log.hasError = (load marked options).log.hasError := by
    rw [hasError_load, hasError_load, ← Diagnostic.Moved.map_shift_eq hentries, List.any_map]
    rfl
  refine ⟨Prod.ext hdescription.shift_eq.symm (Diagnostic.Moved.map_shift_eq hfound).symm,
    hautomaton.symm, ?_, (Log.shift_eq hentries herror).symm⟩
  exact (Located.Moved.map_value_eq hdescription.tests).symm

/-- A source that is reported on in every part and has the marker as a test, behind a line of blanks
    and an indentation of several bytes. -/
theorem load_marked_sample :
    let source := "start: 0 1\naccepting\nfoo: 1\ndelta: 0,é,1 0a\nstart: 0\ntests: ~\n%dfa"
    let blanks := "\n\u3000\t"
    let forced : Options := { layout := .sectioned }
    (Text.lineTexts source.toList).head? ≠ some sectionedMarker ∧
      (∀ c ∈ blanks.toList, Text.isBlank c = true) ∧
      (load (blanks ++ "%dfa\n" ++ source) {}).log = (load source forced).log.shift 10 ∧
      (load source forced).log.issues = [.extraStartTokens, .malformedSection, .unknownSection,
        .malformedTransitionToken, .duplicateSection, .unknownStateReference] := by
  intro source blanks forced
  have hsource : (Text.lineTexts source.toList).head? ≠ some sectionedMarker := by decide
  have hblanks : ∀ c ∈ blanks.toList, Text.isBlank c = true := by
    simp [blanks, Text.isBlank, Text.inRanges, Text.blankRanges]
  have hoptions : ({} : Options).layout ≠ .legacy := by decide
  have hforced : forced.layout = .sectioned := rfl
  obtain ⟨-, -, -, hlog⟩ := load_marked hsource hblanks hoptions hforced
  exact ⟨hsource, hblanks, hlog, by decide +kernel⟩

end Acceptor
