import Acceptor.Proofs.Description.Moved
import Acceptor.Proofs.Diagnostic.LineEnds

/-!
# Only the texts of lines carry meaning

Blank lines, indentation, blanks at the end of a line and the way lines are ended are there for the
reader of a source.  Sources with the same trimmed, non-blank lines describe the same automaton and
the same tests, and are reported on in the same words.  If moreover only the line ends differ, what
is shown of the source with each report is the same as well.

* `load_congr_lineTexts`   sources with the same lines
* `render_withReturns`     sources that differ in line ends only
* `load_lineTexts`         both statements
-/

namespace Acceptor

/-- Lines with the same texts are moved, if nothing is asked of their places. -/
theorem moved_of_map_value_eq {lines lines' : List Token}
    (h : lines.map (·.value) = lines'.map (·.value)) :
    List.Forall₂ (Located.TextMoved fun _ _ => True) lines lines' := by
  induction lines generalizing lines' with
  | nil =>
    obtain rfl := List.map_eq_nil_iff.mp h.symm
    exact .nil
  | cons line lines ih =>
    obtain ⟨line', lines', rfl, hline, hlines⟩ := List.map_eq_cons_iff.mp h.symm
    exact .cons ⟨⟨congrArg String.toList hline.symm, fun _ _ _ _ => trivial⟩, trivial⟩
      (ih hlines.symm)

/-- Sources with the same lines are loaded alike. -/
theorem load_congr_lineTexts {source source' : String}
    (h : Text.lineTexts source.toList = Text.lineTexts source'.toList) (options : Options) :
    (load source options).automaton = (load source' options).automaton ∧
      (load source options).tests = (load source' options).tests ∧
      (load source options).log.unplaced = (load source' options).log.unplaced := by
  have hlines := moved_of_map_value_eq
    ((Text.map_value_lines source).trans (h.trans (Text.map_value_lines source').symm))
  have hread := Description.parse_moved options hlines trivial
  exact load_congr hread.description.unplaced_eq
    (map_eq_of_forall₂ (fun _ _ hd => hd.unplaced_eq) hread.found)

/-! ## Line ends -/

/-- The source with every line feed written as a carriage return and a line feed. -/
def Text.withReturns (source : String) : String := String.ofList (crlf source.toList)

@[simp] theorem Text.toList_withReturns (source : String) :
    (withReturns source).toList = crlf source.toList := String.toList_ofList

/-- With the other line ends the same is shown of all lines. -/
theorem lines_withReturns_moved (source : String) :
    List.Forall₂ (Located.TextMoved (SameSnippet source.toList (Text.withReturns source).toList))
      (Text.lines source) (Text.lines (Text.withReturns source)) := by
  have hmoved := SameSnippet.linesAt_crlf source.toList Text.lineBegins_nil
  rw [List.nil_append, ← Text.toList_withReturns] at hmoved
  exact hmoved

theorem lineTexts_withReturns (source : String) :
    Text.lineTexts (Text.withReturns source).toList = Text.lineTexts source.toList := by
  rw [← Text.map_value_lines, ← Text.map_value_lines]
  exact (map_eq_of_forall₂ (fun _ _ ht => ht.value_eq) (lines_withReturns_moved source)).symm

/-- With the other line ends the reports look the same. -/
theorem render_withReturns (source : String) (options : Options) (color : Bool) :
    (load source options).log.render source color =
      (load (Text.withReturns source) options).log.render (Text.withReturns source) color := by
  have hend := SameSnippet.endOfSource_crlf source.toList
  rw [← Text.toList_withReturns] at hend
  obtain ⟨-, -, hreports⟩ := load_moved options (lines_withReturns_moved source) hend
  exact SameSnippet.log_render_eq hreports color

/-! ## Main result -/

/-- Only the trimmed, non-blank lines carry meaning: sources that agree in them are loaded alike, up
    to the places of the reports.  Writing all line feeds as carriage returns and line feeds keeps
    these lines, and what is shown of the source with each report. -/
theorem load_lineTexts (source : String) (options : Options) :
    (∀ source' : String, Text.lineTexts source'.toList = Text.lineTexts source.toList →
      (load source' options).automaton = (load source options).automaton ∧
        (load source' options).tests = (load source options).tests ∧
        (load source' options).log.unplaced = (load source options).log.unplaced) ∧
      Text.lineTexts (Text.withReturns source).toList = Text.lineTexts source.toList ∧
        ∀ color, (load (Text.withReturns source) options).log.render (Text.withReturns source)
          color = (load source options).log.render source color :=
  ⟨fun _ h => load_congr_lineTexts h options, lineTexts_withReturns source,
    fun color => (render_withReturns source options color).symm⟩

/-- Blank lines, indentation and blanks at the end of a line are not among the texts. -/
example : Text.lineTexts "\n 1\t\r\n\n0 \n0a1  1b1\n\n~".toList =
    Text.lineTexts "1\n0\n0a1  1b1\n~\n".toList := by decide

end Acceptor
