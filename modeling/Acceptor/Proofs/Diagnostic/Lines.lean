import Acceptor.Diagnostic.Render
import Acceptor.Proofs.Text.OneLine

/-!
# Diagnostics line by line

A note is shown as a header line and, if its place begins at a character of the source or at the
end, as two further lines: the line of the source on which the place begins, and the mark below it.
Everything there is to say about a place follows from cutting the source into what stands in front
of that line, the two parts of the line at either side of the beginning, and the rest.

* `Text.exists_lineAt`     the line of a place
* `Snippet.of?_lineAt`     what is shown of a place
* `Snippet.of?_stretch`    what is shown of a stretch of a line
* `Note.render_eq`         the lines of a note
* `Diagnostic.render_eq`   a chain of notes, one after the other
-/

namespace Acceptor

/-! ## Places -/

/-- A stretch of a text without line feeds is part of a line, which begins in front of the stretch
    and ends behind it. -/
theorem Text.exists_line_at (before : List Char) {mid : List Char} (hmid : '\n' ∉ mid)
    (after : List Char) :
    ∃ front left right rest, before = front ++ left ∧ after = right ++ rest ∧
      LineBegins front ∧ '\n' ∉ left ++ mid ++ right ∧ LineEnds rest := by
  obtain ⟨front, left, hbefore, hfront, hleft⟩ := exists_last_line before
  have hright : '\n' ∉ after.takeWhile (· != '\n') := by
    intro hmem
    simpa using List.all_eq_true.mp List.all_takeWhile _ hmem
  have hrest : LineEnds (after.dropWhile (· != '\n')) := by
    intro c hc
    have hstop := List.head?_dropWhile_not (· != '\n') after
    rw [show (after.dropWhile (· != '\n')).head? = some c from hc] at hstop
    simpa using hstop
  exact ⟨front, left, after.takeWhile (· != '\n'), after.dropWhile (· != '\n'), hbefore,
    List.takeWhile_append_dropWhile.symm, hfront, by simp [hleft, hmid, hright], hrest⟩

/-- The place at byte offset `n` of a text is on the line `left ++ right`, behind `left`; the line
    begins behind `front` and ends before `rest`. -/
structure Text.LineAt (cs : List Char) (n : Nat) (front left right rest : List Char) : Prop where
  chars_eq : cs = front ++ left ++ (right ++ rest)
  offset_eq : n = byteLength (front ++ left)
  begins : LineBegins front
  newline_not_mem : '\n' ∉ left ++ right
  ends : LineEnds rest

namespace Text.LineAt

variable {cs : List Char} {n : Nat} {front left right rest : List Char}

theorem newline_not_mem_left (h : LineAt cs n front left right rest) : '\n' ∉ left :=
  fun hmem => h.newline_not_mem (List.mem_append_left right hmem)

theorem newline_not_mem_right (h : LineAt cs n front left right rest) : '\n' ∉ right :=
  fun hmem => h.newline_not_mem (List.mem_append_right left hmem)

theorem chars_eq_line (h : LineAt cs n front left right rest) :
    cs = front ++ (left ++ right) ++ rest := by
  rw [h.chars_eq]
  simp only [List.append_assoc]

theorem splitAtByte?_eq (h : LineAt cs n front left right rest) :
    splitAtByte? n cs = some (front ++ left, right ++ rest) :=
  splitAtByte?_eq_some_iff.mpr ⟨h.chars_eq, h.offset_eq.symm⟩

/-- There are no line feeds on the line. -/
theorem count_eq (h : LineAt cs n front left right rest) :
    (front ++ left).count '\n' = front.count '\n' := by
  rw [List.count_append, List.count_eq_zero.mpr h.newline_not_mem_left, Nat.add_zero]

end Text.LineAt

/-- Every place at which a text can be cut is on a line. -/
theorem Text.exists_lineAt {cs : List Char} {n : Nat} {cut : List Char × List Char}
    (h : splitAtByte? n cs = some cut) :
    ∃ front left right rest, LineAt cs n front left right rest := by
  obtain ⟨before, after⟩ := cut
  obtain ⟨hcs, hn⟩ := splitAtByte?_eq_some_iff.mp h
  obtain ⟨front, left, right, rest, rfl, rfl, hfront, hline, hrest⟩ :=
    exists_line_at before List.not_mem_nil after
  rw [List.append_nil] at hline
  exact ⟨front, left, right, rest, hcs, hn.symm, hfront, hline, hrest⟩

/-- What stands in front of an offset. -/
theorem Text.slice?_front (source : String) (stop : Nat) :
    slice? source ⟨0, stop⟩ =
      (splitAtByte? stop source.toList).map fun cut => String.ofList cut.1 := by
  have hnothing (cs : List Char) : splitAtByte? 0 cs = some ([], cs) :=
    splitAtByte?_eq_some_iff.mpr ⟨rfl, rfl⟩
  simp only [slice?, hnothing]
  cases splitAtByte? stop source.toList <;> rfl

/-- What is shown of a place on a line: the line, and a mark behind what stands in front of the
    place, which is as long as the characters on the line that belong to the place. -/
theorem Snippet.of?_lineAt {cs front left right rest : List Char} {span : Span}
    (h : Text.LineAt cs span.start front left right rest) :
    Snippet.of? cs span =
      some {
        number := front.count '\n' + 1
        line := Text.dropReturns (left ++ right)
        column := left.length
        width :=
          (Text.splitAtByte? (min (span.stop - span.start) (Text.byteLength right)) right).elim 0
            (·.1.length) } := by
  have hleft := h.newline_not_mem_left
  -- the line reaches from behind `front` to `rest`
  have hbefore : ((front ++ left).reverse.takeWhile (· != '\n')).reverse = left := by
    have hends : Text.LineEnds front.reverse := by
      intro c hc
      rw [List.head?_reverse] at hc
      exact h.begins c hc
    rw [List.reverse_append, Text.takeWhile_line (by simpa using hleft) hends, List.reverse_reverse]
  have hafter : (right ++ rest).takeWhile (· != '\n') = right :=
    Text.takeWhile_line h.newline_not_mem_right h.ends
  simp only [of?]
  rw [h.splitAtByte?_eq]
  dsimp only
  rw [hbefore, hafter, h.count_eq]
  cases Text.splitAtByte? (min (span.stop - span.start) (Text.byteLength right)) right <;> rfl

/-- What is shown of the stretch `mid` of the line `left ++ mid ++ right`: the line, and `mid`
    marked behind `left`. -/
theorem Snippet.of?_stretch {front left mid right rest : List Char}
    (hfront : Text.LineBegins front) (hline : '\n' ∉ left ++ mid ++ right)
    (hrest : Text.LineEnds rest) :
    Snippet.of? (front ++ (left ++ mid ++ right) ++ rest)
        ⟨Text.byteLength (front ++ left), Text.byteLength (front ++ left) + Text.byteLength mid⟩ =
      some {
        number := front.count '\n' + 1
        line := Text.dropReturns (left ++ mid ++ right)
        column := left.length
        width := mid.length } := by
  rw [List.append_assoc left] at hline ⊢
  have hat : Text.LineAt (front ++ (left ++ (mid ++ right)) ++ rest)
      (Text.byteLength (front ++ left)) front left (mid ++ right) rest :=
    ⟨by simp only [List.append_assoc], rfl, hfront, hline, hrest⟩
  have hbytes : min (Text.byteLength (front ++ left) + Text.byteLength mid -
      Text.byteLength (front ++ left)) (Text.byteLength (mid ++ right)) = Text.byteLength mid := by
    rw [Text.byteLength_append mid]
    omega
  have hmarked : Text.splitAtByte? (Text.byteLength mid) (mid ++ right) = some (mid, right) :=
    Text.splitAtByte?_eq_some_iff.mpr ⟨rfl, rfl⟩
  rw [of?_lineAt hat]
  dsimp only
  rw [hbytes, hmarked]
  rfl

/-- The line that is shown of a source is part of it and has no line feed. -/
theorem Snippet.line_of_of?_eq_some {cs : List Char} {span : Span} {s : Snippet}
    (h : of? cs span = some s) : s.line ⊆ cs ∧ '\n' ∉ s.line := by
  cases hcut : Text.splitAtByte? span.start cs with
  | none => rw [of?, hcut] at h; cases h
  | some cut =>
    obtain ⟨front, left, right, rest, hat⟩ := Text.exists_lineAt hcut
    rw [of?_lineAt hat] at h
    obtain rfl := Option.some.inj h
    have hsub : Text.dropReturns (left ++ right) ⊆ left ++ right :=
      (Text.dropReturns_isPrefix _).subset
    refine ⟨fun c hc => ?_, fun hmem => hat.newline_not_mem (hsub hmem)⟩
    rw [hat.chars_eq_line]
    exact List.mem_append_left rest (List.mem_append_right front (hsub hc))

/-- Something is shown of a place exactly if it begins between two characters of the source or at
    one of its ends. -/
theorem Snippet.of?_eq_none_iff {cs : List Char} {span : Span} :
    of? cs span = none ↔ Text.splitAtByte? span.start cs = none := by
  simp only [of?]
  cases Text.splitAtByte? span.start cs <;> simp

/-! ## Lines -/

namespace Fragment

/-- The fragments one after the other. -/
def writeAll (color : Bool) (fs : List Fragment) : String := String.join (fs.map (·.write color))

theorem writeAll_cons (color : Bool) (f : Fragment) (fs : List Fragment) :
    writeAll color (f :: fs) = f.write color ++ writeAll color fs := String.join_cons

theorem writeAll_append (color : Bool) (fs gs : List Fragment) :
    writeAll color (fs ++ gs) = writeAll color fs ++ writeAll color gs := by
  simp only [writeAll]
  rw [List.map_append, String.join_append]

end Fragment

/-- A style as it is written, or nothing if no styling is wanted. -/
def Style.paint (color : Bool) (s : Style) : String := (Fragment.style s).write color

@[simp] theorem Style.paint_false (s : Style) : s.paint false = "" := rfl

@[simp] theorem Style.paint_true (s : Style) : s.paint true = s.code := rfl

/-- The characters with each tab as one space. -/
def Text.spaced (cs : List Char) : List Char := cs.map fun c => if c = '\t' then ' ' else c

@[simp] theorem Text.length_spaced (cs : List Char) : (spaced cs).length = cs.length :=
  List.length_map _

@[simp] theorem Text.spaced_append (cs ds : List Char) :
    spaced (cs ++ ds) = spaced cs ++ spaced ds := List.map_append

/-- Replacing tabs brings in spaces only. -/
theorem Text.not_mem_spaced {c : Char} (hc : c ≠ ' ') {cs : List Char} (h : c ∉ cs) :
    c ∉ spaced cs := by
  intro hmem
  obtain ⟨d, hd, hcd⟩ := List.mem_map.mp hmem
  split at hcd
  · exact hc hcd.symm
  · exact h (hcd ▸ hd)

theorem Text.oneLine_spaced {cs : List Char} (h : '\n' ∉ cs) :
    OneLine (String.ofList (spaced cs)) := by
  rw [OneLine, String.toList_ofList]
  exact not_mem_spaced (by decide) h

namespace Snippet

/-- The line of the source behind its number. -/
def sourceLine (color : Bool) (s : Snippet) : String :=
  Style.bold.paint color ++ Style.cyan.paint color ++ (toString s.number ++ ": ") ++
    Style.reset.paint color ++ String.ofList (Text.spaced s.line)

/-- The mark below the line. -/
def markLine (color : Bool) (s : Snippet) : String :=
  Style.bold.paint color ++ Style.cyan.paint color ++
    "".pushn ' ' ((toString s.number).length + 2) ++
    ("".pushn ' ' s.column ++ "".pushn '~' (max 1 s.width)) ++ Style.reset.paint color

end Snippet

namespace Note

/-- The level and the message. -/
def headerLine (color : Bool) (n : Note) : String :=
  Style.bold.paint color ++ n.level.style.paint color ++ n.level.label ++
    Style.reset.paint color ++ Style.bold.paint color ++ (": " ++ n.message) ++
    Style.reset.paint color

/-- The snippet that is shown with the note, if there is one. -/
def snippet? (source : String) (n : Note) : Option Snippet :=
  n.span?.bind (Snippet.of? source.toList)

theorem snippet?_of_span?_eq_none (source : String) {n : Note} (h : n.span? = none) :
    n.snippet? source = none := by
  rw [snippet?, h]
  rfl

theorem snippet?_of_span?_eq_some (source : String) {n : Note} {span : Span}
    (h : n.span? = some span) : n.snippet? source = Snippet.of? source.toList span := by
  rw [snippet?, h]
  rfl

/-- The lines that a note is shown as. -/
def shownLines (source : String) (color : Bool) (n : Note) : List String :=
  n.headerLine color ::
    (n.snippet? source).elim [] fun s => [s.sourceLine color, s.markLine color]

/-- The note as a text. -/
def render (source : String) (color : Bool) (n : Note) : String :=
  String.join ((n.fragments source.toList).map (·.write color))

/-- A note is shown as its lines, each ended by a line feed. -/
theorem render_eq (source : String) (color : Bool) (n : Note) :
    n.render source color = String.join ((n.shownLines source color).map (· ++ "\n")) := by
  have hsnippet : n.span?.bind (Snippet.of? source.toList) = n.snippet? source := rfl
  simp only [render, fragments, shownLines]
  rw [hsnippet]
  cases n.snippet? source with
  | none => simp [header, headerLine, Style.paint, Fragment.write, String.append_assoc]
  | some s =>
    simp [header, headerLine, Snippet.fragments, Snippet.sourceLine, Snippet.markLine, Style.paint,
      Fragment.write, Text.spaced, String.append_assoc]

/-- Notes are shown one after the other. -/
theorem writeAll_flatMap (source : String) (color : Bool) (ns : List Note) :
    Fragment.writeAll color (ns.flatMap (·.fragments source.toList)) =
      String.join (ns.map (·.render source color)) := by
  induction ns with
  | nil => rfl
  | cons n ns ih =>
    rw [List.flatMap_cons, Fragment.writeAll_append, ih, List.map_cons, String.join_cons]
    rfl

theorem render_of_snippet?_eq_none {source : String} {n : Note} (h : n.snippet? source = none)
    (color : Bool) : n.render source color = n.headerLine color ++ "\n" := by
  rw [render_eq, shownLines, h]
  simp

theorem render_of_snippet?_eq_some {source : String} {n : Note} {s : Snippet}
    (h : n.snippet? source = some s) (color : Bool) :
    n.render source color = n.headerLine color ++ "\n" ++ (s.sourceLine color ++ "\n") ++
      (s.markLine color ++ "\n") := by
  rw [render_eq, shownLines, h]
  simp [String.append_assoc]

theorem length_shownLines (source : String) (color : Bool) (n : Note) :
    (n.shownLines source color).length = 1 + if (n.snippet? source).isSome then 2 else 0 := by
  simp only [shownLines]
  cases n.snippet? source <;> rfl

end Note

/-- A chain of notes is shown note by note. -/
theorem Diagnostic.render_eq (source : String) (color : Bool) (d : Diagnostic) :
    d.render source color = String.join (d.notes.map (·.render source color)) :=
  Note.writeAll_flatMap source color d.notes

/-- The lines that a chain of notes is shown as. -/
def Diagnostic.shownLines (source : String) (color : Bool) (d : Diagnostic) : List String :=
  d.notes.flatMap (·.shownLines source color)

theorem Diagnostic.render_eq_shownLines (source : String) (color : Bool) (d : Diagnostic) :
    d.render source color = String.join ((d.shownLines source color).map (· ++ "\n")) := by
  apply String.toList_inj.mp
  rw [render_eq, shownLines, String.toList_join, String.toList_join, List.flatMap_map,
    List.map_flatMap, List.flatMap_assoc]
  simp only [Note.render_eq, String.toList_join]

end Acceptor
