import Acceptor.Proofs.Diagnostic.Lines
import Acceptor.Proofs.Diagnostic.Moved

/-!
# Showing places in a source with other line ends

With the other line ends every place of a source moves back by one byte for each line in front of
it.  What is shown of a place stays the same: the number of the line is counted in line feeds, the
mark in characters of the line up to the place, and carriage returns at the end of a line are not
shown.

* `SameSnippet.moved_crlf`     a line whose end is written in the other way
* `SameSnippet.linesAt_crlf`   the lines of a source with the other line ends
-/

namespace Acceptor

/-! ## Places that are shown in the same way -/

/-- The same is shown of a span of one source and a span of the other. -/
def SameSnippet (cs cs' : List Char) (span span' : Span) : Prop :=
  Snippet.of? cs span = Snippet.of? cs' span'

namespace SameSnippet

theorem fragments_eq {source source' : String} {n n' : Note}
    (h : n.Moved (SameSnippet source.toList source'.toList) n') :
    n.fragments source.toList = n'.fragments source'.toList := by
  obtain ⟨level, message, span?, issue?⟩ := n
  obtain ⟨level', message', span?', issue?'⟩ := n'
  obtain ⟨rfl, rfl, rfl, hspan⟩ := h
  simp only [Note.fragments]
  cases hspan with
  | none => rfl
  | some hspan =>
    rw [Option.bind_some, Option.bind_some, hspan]
    rfl

/-- Reports whose places are shown in the same way look the same. -/
theorem render_eq {source source' : String} {d d' : Diagnostic}
    (h : d.Moved (SameSnippet source.toList source'.toList) d') (color : Bool) :
    d.render source color = d'.render source' color := by
  have hnotes := map_eq_of_forall₂ (fun _ _ hn => fragments_eq hn) h
  simp only [Diagnostic.render]
  rw [List.flatMap_def, List.flatMap_def, hnotes]

theorem log_render_eq {source source' : String} {log log' : Log}
    (h : List.Forall₂ (Diagnostic.Moved (SameSnippet source.toList source'.toList))
      log.entries.toList log'.entries.toList) (color : Bool) :
    log.render source color = log'.render source' color := by
  have hrender (d d' : Diagnostic)
      (hd : d.Moved (SameSnippet source.toList source'.toList) d') :
      d.render source color = d'.render source' color := render_eq hd color
  exact map_eq_of_forall₂ hrender h

/-- A line whose end is written in the other way is shown in the same way. -/
theorem moved_crlf {front xs rest : List Char} (hfront : Text.LineBegins front) (hxs : '\n' ∉ xs)
    (hrest : Text.LineEnds rest) :
    (⟨Text.byteLength front, xs⟩ : Piece).Moved
      (SameSnippet (front ++ xs ++ rest) (Text.crlf (front ++ xs ++ rest)))
      ⟨Text.byteLength (Text.crlf front), xs⟩ := by
  refine ⟨rfl, fun before mid after hparts => ?_⟩
  dsimp only at hparts
  subst hparts
  -- what the span of a stretch is in terms of the text in front of it
  have hspan (front' : List Char) : ((⟨Text.byteLength front', before ++ mid ++ after⟩ :
      Piece).part before mid).token.span = ⟨Text.byteLength (front' ++ before),
        Text.byteLength (front' ++ before) + Text.byteLength mid⟩ := by
    rw [Text.byteLength_append]
    rfl
  simp only [SameSnippet]
  rw [hspan, hspan, Snippet.of?_stretch hfront hxs hrest, Text.crlf_append, Text.crlf_append,
    Text.crlf_of_newline_not_mem hxs, ← Text.count_newline_crlf]
  cases rest with
  | nil => exact (Snippet.of?_stretch (Text.lineBegins_crlf hfront) hxs hrest).symm
  | cons c rest =>
    obtain rfl : c = '\n' := hrest c rfl
    have hline : '\n' ∉ before ++ mid ++ (after ++ ['\r']) := by
      rw [← List.append_assoc]
      simpa using hxs
    have hshown := Snippet.of?_stretch (Text.lineBegins_crlf hfront) hline
      (Text.lineEnds_newline (Text.crlf rest))
    -- the carriage return is at the end of the line, where it is not shown
    have hreturn : Text.dropReturns (before ++ mid ++ (after ++ ['\r'])) =
        Text.dropReturns (before ++ mid ++ after) := by
      rw [← List.append_assoc, Text.dropReturns_append_return]
    rw [Text.crlf_cons_newline, ← hreturn, ← hshown]
    simp only [List.append_assoc, List.singleton_append]

/-- The ends of both sources are shown in the same way. -/
theorem endOfSource_crlf (cs : List Char) :
    SameSnippet cs (Text.crlf cs) (.at (Text.byteLength cs))
      (.at (Text.byteLength (Text.crlf cs))) := by
  obtain ⟨front, xs, rfl, hfront, hxs⟩ := Text.exists_last_line cs
  -- the end is the empty stretch behind the last line
  have hend := (moved_crlf hfront hxs Text.lineEnds_nil).span_part xs [] [] (by simp)
  have hspan (front' : List Char) : ((⟨Text.byteLength front', xs⟩ : Piece).part xs []).token.span =
      .at (Text.byteLength (front' ++ xs)) := by
    rw [Text.byteLength_append]
    rfl
  have hcrlf : Text.crlf (front ++ xs) = Text.crlf front ++ xs := by
    rw [Text.crlf_append, Text.crlf_of_newline_not_mem hxs]
  rwa [hspan, hspan, List.append_nil, ← hcrlf] at hend

/-- The lines stay the same with the other line ends, and all their stretches are shown in the
    same way. -/
theorem linesAt_crlf (ys : List Char) {front : List Char} (hfront : Text.LineBegins front) :
    List.Forall₂ (Located.TextMoved (SameSnippet (front ++ ys) (Text.crlf (front ++ ys))))
      (Text.linesAt (Text.byteLength front) ys)
      (Text.linesAt (Text.byteLength (Text.crlf front)) (Text.crlf ys)) := by
  induction ys using Text.line_induction generalizing front with
  | last xs hxs =>
    have hmoved := (moved_crlf hfront hxs Text.lineEnds_nil).linesAt
    rw [List.append_nil] at hmoved
    rwa [Text.crlf_of_newline_not_mem hxs]
  | next xs ys hxs ih =>
    have hfirst := (moved_crlf hfront hxs (Text.lineEnds_newline ys)).linesAt
    have hrest := ih (Text.lineBegins_append_newline (front ++ xs))
    -- both sources go on behind a line feed, with their lengths up to there in front
    have hcrlf : Text.crlf (xs ++ '\n' :: ys) = (xs ++ ['\r']) ++ '\n' :: Text.crlf ys := by
      rw [Text.crlf_append, Text.crlf_of_newline_not_mem hxs, Text.crlf_cons_newline,
        List.append_assoc, List.singleton_append]
    have hparts : front ++ xs ++ '\n' :: ys = front ++ xs ++ ['\n'] ++ ys := by simp
    have hlength : Text.byteLength (front ++ xs ++ ['\n']) =
        Text.byteLength front + Text.byteLength xs + 1 := by
      rw [Text.byteLength_append, Text.byteLength_append]
      rfl
    have hlength' : Text.byteLength (Text.crlf (front ++ xs ++ ['\n'])) =
        Text.byteLength (Text.crlf front) + Text.byteLength (xs ++ ['\r']) + 1 := by
      rw [Text.crlf_append, Text.crlf_append, Text.crlf_of_newline_not_mem hxs,
        Text.byteLength_append, Text.byteLength_append, Text.byteLength_append]
      rfl
    rw [hlength, hlength', ← hparts] at hrest
    rw [hcrlf, Text.linesAt_append_newline, Text.linesAt_append_newline,
      Text.linesAt_append_blank _ hxs (by decide) (by decide), ← List.append_assoc]
    exact List.rel_append hfirst hrest

end SameSnippet

end Acceptor
