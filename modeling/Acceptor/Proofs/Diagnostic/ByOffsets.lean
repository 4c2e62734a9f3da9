import Acceptor.Proofs.Diagnostic.Lines
import Acceptor.Proofs.Text.Places

/-!
# Showing diagnostics by byte offsets

A place can be shown without going through the characters of the source: the line is found by
searching for line feeds at either side of the place, and what is shown is cut out of the source at
the byte offsets that were found.  Cutting fails behind the end of the source, inside of a
character and if the offsets are not in order, and blanks cannot be written beyond a last column.
Only the beginning of a place and its mark are cut out with care; the offsets of the line are
trusted.

They can be: whatever span is to be shown, no cut fails, and what is shown is the same.

* `lastOffset?_line`, `firstOffset?_line`   the ends of a line
* `Snippet.cutOut_eq`                       no cut fails
* `renderByOffsets_eq`
* `rendering_is_safe`
-/

namespace Acceptor

/-! ## Cutting a source -/

/-- What can go wrong when a source is shown by byte offsets. -/
inductive RenderFault
  /-- A cut that is out of order, behind the end of the source or inside of a character. -/
  | cut (span : Span)
  /-- Blanks beyond the last column. -/
  | columns (count : Nat)
deriving DecidableEq, Repr

namespace Text

/-- The text between two offsets that are trusted. -/
def cut (source : String) (span : Span) : Except RenderFault String :=
  match slice? source span with
  | some text => .ok text
  | none => .error (.cut span)

/-- The offset of the first `c`. -/
def firstOffset? (c : Char) : List Char → Option Nat
  | [] => none
  | d :: ds => if d = c then some 0 else (firstOffset? c ds).map (d.utf8Size + ·)

/-- The offset of the last `c`. -/
def lastOffset? (c : Char) : List Char → Option Nat
  | [] => none
  | d :: ds =>
    match lastOffset? c ds with
    | some offset => some (d.utf8Size + offset)
    | none => if d = c then some 0 else none

example : firstOffset? 'b' "éab b".toList = some 3 := by decide
example : lastOffset? 'b' "éab b".toList = some 5 := by decide

theorem firstOffset?_eq_none {c : Char} {cs : List Char} (h : c ∉ cs) :
    firstOffset? c cs = none := by
  induction cs with
  | nil => rfl
  | cons d ds ih =>
    rw [List.mem_cons, not_or] at h
    rw [firstOffset?, if_neg (Ne.symm h.1), ih h.2]
    rfl

theorem firstOffset?_append_cons {c : Char} {cs : List Char} (h : c ∉ cs) (ds : List Char) :
    firstOffset? c (cs ++ c :: ds) = some (byteLength cs) := by
  induction cs with
  | nil => simp [firstOffset?]
  | cons d cs ih =>
    rw [List.mem_cons, not_or] at h
    rw [List.cons_append, firstOffset?, if_neg (Ne.symm h.1), ih h.2, byteLength_cons]
    rfl

theorem lastOffset?_eq_none {c : Char} {cs : List Char} (h : c ∉ cs) :
    lastOffset? c cs = none := by
  induction cs with
  | nil => rfl
  | cons d ds ih =>
    rw [List.mem_cons, not_or] at h
    rw [lastOffset?, ih h.2]
    exact if_neg (Ne.symm h.1)

theorem lastOffset?_append_cons {c : Char} (cs : List Char) {ds : List Char} (h : c ∉ ds) :
    lastOffset? c (cs ++ c :: ds) = some (byteLength cs) := by
  induction cs with
  | nil => simp [lastOffset?, lastOffset?_eq_none h]
  | cons d cs ih => rw [List.cons_append, lastOffset?, ih, byteLength_cons]

/-- The last line of a text begins behind the last line feed. -/
theorem lastOffset?_line {front left : List Char} (hfront : LineBegins front)
    (hleft : '\n' ∉ left) :
    (lastOffset? '\n' (front ++ left)).elim 0 (· + 1) = byteLength front := by
  cases front using List.reverseRecOn with
  | nil => rw [List.nil_append, lastOffset?_eq_none hleft]; rfl
  | append_singleton front c =>
    obtain rfl : c = '\n' := hfront c (by simp)
    rw [List.append_assoc, List.singleton_append, lastOffset?_append_cons front hleft,
      byteLength_append]
    rfl

/-- The first line of a text ends in front of the first line feed, or at the end of the text. -/
theorem firstOffset?_line {right rest : List Char} (hright : '\n' ∉ right)
    (hrest : LineEnds rest) (start : Nat) :
    (firstOffset? '\n' (right ++ rest)).elim (start + byteLength (right ++ rest)) (· + start) =
      start + byteLength right := by
  cases rest with
  | nil => rw [List.append_nil, firstOffset?_eq_none hright]; rfl
  | cons c rest =>
    obtain rfl : c = '\n' := hrest c rfl
    rw [firstOffset?_append_cons hright, Option.elim_some, Nat.add_comm]

/-! ## Slices -/

variable {source : String} {before mid after : List Char}

theorem slice?_stretch (h : source.toList = before ++ mid ++ after) :
    slice? source ⟨byteLength before, byteLength before + byteLength mid⟩ =
      some (String.ofList mid) := by
  refine slice?_eq_some_iff.mpr ⟨before, after, ?_, rfl, ?_⟩
  · rw [h, String.toList_ofList]
  · rw [String.toList_ofList]

/-- What stands in the next `n` bytes. -/
theorem slice?_next (h : source.toList = before ++ after) (n : Nat) :
    slice? source ⟨byteLength before, byteLength before + n⟩ =
      (splitAtByte? n after).map fun cut => String.ofList cut.1 := by
  apply Option.ext
  intro text
  rw [slice?_eq_some_iff, Option.map_eq_some_iff]
  constructor
  · rintro ⟨before', after', hsource, hstart, hstop⟩
    dsimp only at hstart hstop
    -- there is only one way to cut at an offset
    have hcut := splitAtByte?_eq_some_iff.mpr ⟨h, rfl⟩
    have hcut' : splitAtByte? (byteLength before) source.toList =
        some (before', text.toList ++ after') :=
      splitAtByte?_eq_some_iff.mpr ⟨by rw [hsource, List.append_assoc], hstart.symm⟩
    obtain ⟨rfl, rfl⟩ := Prod.mk.inj (Option.some.inj (hcut.symm.trans hcut'))
    refine ⟨(text.toList, after'), splitAtByte?_eq_some_iff.mpr ⟨rfl, ?_⟩, String.ofList_toList⟩
    omega
  · rintro ⟨⟨mid, rest⟩, hcut, rfl⟩
    obtain ⟨rfl, rfl⟩ := splitAtByte?_eq_some_iff.mp hcut
    refine ⟨before, rest, ?_, rfl, ?_⟩
    · rw [h, String.toList_ofList, List.append_assoc]
    · rw [String.toList_ofList]

/-- Offsets that are not in order have nothing between them. -/
theorem slice?_eq_none_of_lt (source : String) {start stop : Nat} (h : stop < start) :
    slice? source ⟨start, stop⟩ = none := by
  cases hslice : slice? source ⟨start, stop⟩ with
  | none => rfl
  | some text =>
    obtain ⟨before, after, -, hstart, hstop⟩ := slice?_eq_some_iff.mp hslice
    dsimp only at hstart hstop
    omega

/-- A cut in the first part of a text is a cut of that part. -/
theorem splitAtByte?_append_of_le {n : Nat} {cs : List Char} (h : n ≤ byteLength cs)
    (ds : List Char) :
    (splitAtByte? n (cs ++ ds)).map (·.1) = (splitAtByte? n cs).map (·.1) := by
  apply Option.ext
  intro as
  rw [Option.map_eq_some_iff, Option.map_eq_some_iff]
  constructor
  · rintro ⟨⟨as, bs⟩, hcut, rfl⟩
    obtain ⟨hparts, has⟩ := splitAtByte?_eq_some_iff.mp hcut
    rcases List.append_eq_append_iff.mp hparts with ⟨more, rfl, -⟩ | ⟨more, rfl, -⟩
    · -- the cut is behind all of the first part, so nothing is left of it
      rw [byteLength_append] at has
      obtain rfl : more = [] := byteLength_eq_zero_iff.mp (by omega)
      exact ⟨(cs, []), splitAtByte?_eq_some_iff.mpr ⟨by simp, by simpa using has⟩, by simp⟩
    · exact ⟨(as, more), splitAtByte?_eq_some_iff.mpr ⟨rfl, has⟩, rfl⟩
  · rintro ⟨⟨as, bs⟩, hcut, rfl⟩
    obtain ⟨rfl, has⟩ := splitAtByte?_eq_some_iff.mp hcut
    exact ⟨(as, bs ++ ds), splitAtByte?_eq_some_iff.mpr ⟨by rw [List.append_assoc], has⟩, rfl⟩

end Text

/-! ## What is shown -/

namespace Snippet

/-- The snippet for a span of the source.  The line begins behind the last line feed in front of the
    place and ends in front of the first one behind its beginning. -/
def cutOut (source : String) (span : Span) : Except RenderFault (Option Snippet) :=
  match Text.slice? source ⟨0, span.start⟩ with
  | none => pure none
  | some before => do
    let lineStart := (Text.lastOffset? '\n' before.toList).elim 0 (· + 1)
    let behind ← Text.cut source ⟨span.start, source.utf8ByteSize⟩
    let lineEnd :=
      (Text.firstOffset? '\n' behind.toList).elim source.utf8ByteSize (· + span.start)
    let line ← Text.cut source ⟨lineStart, lineEnd⟩
    let left ← Text.cut source ⟨lineStart, span.start⟩
    let marked? := Text.slice? source ⟨span.start, min span.stop lineEnd⟩
    pure (some {
      number := before.toList.count '\n' + 1
      line := Text.dropReturns line.toList
      column := left.length
      width := marked?.elim 0 String.length })

/-- The marked part of the line, cut out of the source at its offsets or out of the line. -/
theorem slice?_marked {source : String} {span : Span} {front left right rest : List Char}
    (h : Text.LineAt source.toList span.start front left right rest) :
    (Text.slice? source
        ⟨span.start, min span.stop (span.start + Text.byteLength right)⟩).elim 0 String.length =
      (Text.splitAtByte? (min (span.stop - span.start) (Text.byteLength right)) right).elim 0
        (·.1.length) := by
  by_cases hreversed : span.stop < span.start
  · -- nothing is marked on either side
    have hnone : min span.stop (span.start + Text.byteLength right) < span.start := by omega
    have hzero : min (span.stop - span.start) (Text.byteLength right) = 0 := by omega
    have hcut : Text.splitAtByte? 0 right = some ([], right) :=
      Text.splitAtByte?_eq_some_iff.mpr ⟨rfl, rfl⟩
    rw [Text.slice?_eq_none_of_lt source hnone, hzero, hcut]
    rfl
  · have hstop : min span.stop (span.start + Text.byteLength right) =
        span.start + min (span.stop - span.start) (Text.byteLength right) := by
      omega
    have hle : min (span.stop - span.start) (Text.byteLength right) ≤ Text.byteLength right :=
      Nat.min_le_right _ _
    have hcut := Text.splitAtByte?_append_of_le hle rest
    -- the length only depends on what is in front of the cut
    have hlength (o : Option (List Char × List Char)) :
        (o.map fun cut => String.ofList cut.1).elim 0 String.length =
          (o.map (·.1)).elim 0 List.length := by
      cases o with
      | none => rfl
      | some cut => exact String.length_ofList
    rw [hstop, h.offset_eq, Text.slice?_next h.chars_eq, ← h.offset_eq, hlength, hcut]
    cases Text.splitAtByte? (min (span.stop - span.start) (Text.byteLength right)) right <;> rfl

/-- The cuts around a place. -/
theorem cut_around {source : String} {start : Nat} {front left right rest : List Char}
    (h : Text.LineAt source.toList start front left right rest) :
    Text.cut source ⟨start, source.utf8ByteSize⟩ = .ok (String.ofList (right ++ rest)) ∧
      Text.cut source ⟨Text.byteLength front, start + Text.byteLength right⟩ =
        .ok (String.ofList (left ++ right)) ∧
      Text.cut source ⟨Text.byteLength front, start⟩ = .ok (String.ofList left) := by
  have hbehind : source.toList = front ++ left ++ (right ++ rest) ++ [] := by
    rw [List.append_nil]
    exact h.chars_eq
  have hsize : source.utf8ByteSize =
      Text.byteLength (front ++ left) + Text.byteLength (right ++ rest) := by
    rw [← Text.byteLength_toList, h.chars_eq, Text.byteLength_append]
  have hlineEnd : start + Text.byteLength right =
      Text.byteLength front + Text.byteLength (left ++ right) := by
    rw [h.offset_eq, Text.byteLength_append, Text.byteLength_append, Nat.add_assoc]
  refine ⟨?_, ?_, ?_⟩
  · rw [Text.cut, hsize, h.offset_eq, Text.slice?_stretch hbehind]
  · rw [Text.cut, hlineEnd, Text.slice?_stretch h.chars_eq_line]
  · rw [Text.cut, h.offset_eq, Text.byteLength_append, Text.slice?_stretch h.chars_eq]

/-- No cut fails, and the snippet is the same as the one that is found character by character. -/
theorem cutOut_eq (source : String) (span : Span) :
    cutOut source span = .ok (of? source.toList span) := by
  simp only [cutOut]
  rw [Text.slice?_front]
  cases hcut : Text.splitAtByte? span.start source.toList with
  | none =>
    rw [of?_eq_none_iff.mpr hcut]
    rfl
  | some cut =>
    obtain ⟨front, left, right, rest, hat⟩ := Text.exists_lineAt hcut
    have hsize : span.start + Text.byteLength (right ++ rest) = source.utf8ByteSize := by
      rw [← Text.byteLength_toList, hat.chars_eq, Text.byteLength_append _ (right ++ rest),
        hat.offset_eq]
    -- the offsets that are found are those of the line
    have hbegin := Text.lastOffset?_line hat.begins hat.newline_not_mem_left
    have hend := Text.firstOffset?_line hat.newline_not_mem_right hat.ends span.start
    rw [hsize] at hend
    obtain ⟨hbehind, hwhole, hfirst⟩ := cut_around hat
    rw [hat.splitAtByte?_eq] at hcut
    obtain rfl := Option.some.inj hcut
    rw [Option.map_some]
    dsimp only
    rw [String.toList_ofList, hbegin, hbehind, hfirst]
    dsimp only [bind, Except.bind]
    rw [String.toList_ofList, hend, hwhole]
    dsimp only
    rw [slice?_marked hat, hat.count_eq, String.toList_ofList, String.length_ofList,
      of?_lineAt hat]
    rfl

end Snippet

/-! ## Writing it -/

/-- The last column that blanks can be written up to. -/
def columnLimit : Nat := 65535

/-- A field of blanks. -/
def Text.blanks (count : Nat) : Except RenderFault String :=
  if count ≤ columnLimit then .ok ("".pushn ' ' count) else .error (.columns count)

/-- Neither the blanks below the number nor those in front of the mark go beyond the last column. -/
structure Snippet.Fits (s : Snippet) : Prop where
  number : (toString s.number).length ≤ columnLimit
  column : s.column ≤ columnLimit

instance (s : Snippet) : Decidable s.Fits :=
  decidable_of_iff ((toString s.number).length ≤ columnLimit ∧ s.column ≤ columnLimit)
    ⟨fun ⟨hnumber, hcolumn⟩ => ⟨hnumber, hcolumn⟩, fun h => ⟨h.number, h.column⟩⟩

/-- The line and the mark below it. -/
def Snippet.write (color : Bool) (s : Snippet) : Except RenderFault String := do
  let gutter ← Text.blanks (toString s.number).length
  let indent ← Text.blanks s.column
  pure (s.sourceLine color ++ "\n" ++
    (Style.bold.paint color ++ Style.cyan.paint color ++ gutter ++ "  " ++ indent ++
      "".pushn '~' (max 1 s.width) ++ Style.reset.paint color ++ "\n"))

theorem Snippet.write_eq {s : Snippet} (h : s.Fits) (color : Bool) :
    s.write color = .ok (s.sourceLine color ++ "\n" ++ (s.markLine color ++ "\n")) := by
  have hspaces : "".pushn ' ' 2 = "  " := by decide
  have hgutter := Text.pushn_add ' ' (toString s.number).length 2
  rw [hspaces] at hgutter
  simp only [write, Text.blanks, markLine]
  rw [if_pos h.number, if_pos h.column, ← hgutter]
  simp only [bind, Except.bind, pure, Except.pure, String.append_assoc]

/-- The note as a text, by way of byte offsets. -/
def Note.renderByOffsets (source : String) (color : Bool) (n : Note) :
    Except RenderFault String :=
  match n.span? with
  | none => pure (n.headerLine color ++ "\n")
  | some span => do
    match ← Snippet.cutOut source span with
    | none => pure (n.headerLine color ++ "\n")
    | some s => return n.headerLine color ++ "\n" ++ (← s.write color)

theorem Note.renderByOffsets_eq {source : String} {n : Note}
    (h : ∀ s ∈ n.snippet? source, s.Fits) (color : Bool) :
    n.renderByOffsets source color = .ok (n.render source color) := by
  simp only [renderByOffsets]
  cases hspan : n.span? with
  | none =>
    rw [render_of_snippet?_eq_none (snippet?_of_span?_eq_none source hspan)]
    rfl
  | some span =>
    have hsnippet := snippet?_of_span?_eq_some source hspan
    dsimp only
    rw [Snippet.cutOut_eq]
    cases hof : Snippet.of? source.toList span with
    | none =>
      rw [render_of_snippet?_eq_none (hsnippet.trans hof)]
      rfl
    | some s =>
      have hfits : s.Fits := h s (hsnippet.trans hof)
      rw [render_of_snippet?_eq_some (hsnippet.trans hof)]
      dsimp only [bind, Except.bind]
      rw [Snippet.write_eq hfits]
      simp only [pure, Except.pure, String.append_assoc]

/-- Notes one after the other. -/
def renderNotesByOffsets (source : String) (color : Bool) : List Note → Except RenderFault String
  | [] => pure ""
  | n :: ns => do
    let text ← n.renderByOffsets source color
    return text ++ (← renderNotesByOffsets source color ns)

theorem renderNotesByOffsets_eq {source : String} {ns : List Note}
    (h : ∀ n ∈ ns, ∀ s ∈ n.snippet? source, s.Fits) (color : Bool) :
    renderNotesByOffsets source color ns =
      .ok (String.join (ns.map (·.render source color))) := by
  induction ns with
  | nil => rfl
  | cons n ns ih =>
    have hn := Note.renderByOffsets_eq (h n List.mem_cons_self) color
    have hns := ih fun m hm => h m (List.mem_cons_of_mem n hm)
    rw [renderNotesByOffsets, hn, hns, List.map_cons, String.join_cons]
    rfl

/-- The whole chain of notes. -/
def Diagnostic.renderByOffsets (source : String) (color : Bool) (d : Diagnostic) :
    Except RenderFault String :=
  renderNotesByOffsets source color d.notes

/-! ## Main result -/

/-- The offsets between which a text can be cut are the valid positions of a text. -/
theorem Text.isValid_iff {source : String} {n : Nat} :
    (⟨n⟩ : String.Pos.Raw).IsValid source ↔ ∃ cut, splitAtByte? n source.toList = some cut := by
  rw [String.Pos.Raw.isValid_iff_exists_append]
  constructor
  · rintro ⟨before, after, rfl, hn⟩
    refine ⟨(before.toList, after.toList), splitAtByte?_eq_some_iff.mpr ⟨?_, ?_⟩⟩
    · exact String.toList_append
    · rw [byteLength_toList]
      exact (congrArg String.Pos.Raw.byteIdx hn).symm
  · rintro ⟨⟨before, after⟩, hcut⟩
    obtain ⟨hsource, hn⟩ := splitAtByte?_eq_some_iff.mp hcut
    refine ⟨String.ofList before, String.ofList after, ?_, ?_⟩
    · rw [← String.ofList_append, ← hsource, String.ofList_toList]
    · rw [← hn, ← utf8ByteSize_ofList]
      rfl

/-- The line on which `start` lies ends at `stop`, with a line feed or the end of the source. -/
structure Text.EndsLine (source : String) (start stop : Nat) : Prop where
  exists_text : ∃ text, slice? source ⟨start, stop⟩ = some text ∧ OneLine text
  ends : stop = source.utf8ByteSize ∨ slice? source ⟨stop, stop + 1⟩ = some "\n"

theorem Text.LineAt.endsLine {source : String} {start : Nat} {front left right rest : List Char}
    (h : LineAt source.toList start front left right rest) :
    EndsLine source start (start + byteLength right) where
  exists_text := by
    have hsource : source.toList = front ++ left ++ right ++ rest := by
      rw [h.chars_eq]
      simp only [List.append_assoc]
    refine ⟨String.ofList right, ?_, ?_⟩
    · rw [h.offset_eq, slice?_stretch hsource]
    · rw [OneLine, String.toList_ofList]
      exact h.newline_not_mem_right
  ends := by
    have hsource := h.chars_eq
    have hends := h.ends
    rw [h.offset_eq, ← byteLength_append]
    cases rest with
    | nil =>
      rw [← byteLength_toList, hsource, List.append_nil]
      exact .inl rfl
    | cons c rest =>
      obtain rfl : c = '\n' := hends c rfl
      have hnewline : source.toList = front ++ left ++ right ++ ['\n'] ++ rest := by
        rw [hsource]
        simp only [List.append_assoc, List.singleton_append]
      exact .inr (slice?_stretch hnewline)

/-- A note with a valid position is shown with the line it is on and the mark below. -/
theorem Note.render_valid {source : String} {n : Note} {span : Span} (hspan : n.span? = some span)
    (hvalid : (⟨span.start⟩ : String.Pos.Raw).IsValid source) (color : Bool) :
    ∃ stop number line blanks, Text.EndsLine source span.start stop ∧ Text.OneLine line ∧
      n.render source color = n.headerLine color ++ "\n" ++
        (Style.bold.paint color ++ Style.cyan.paint color ++ toString (number : Nat) ++ ": " ++
          Style.reset.paint color ++ line ++ "\n") ++
        (Style.bold.paint color ++ Style.cyan.paint color ++ "".pushn ' ' blanks ++
          "".pushn '~' (max 1 ((Text.slice? source ⟨span.start, min span.stop stop⟩).elim 0
            String.length)) ++ Style.reset.paint color ++ "\n") := by
  obtain ⟨cut, hcut⟩ := Text.isValid_iff.mp hvalid
  obtain ⟨front, left, right, rest, hat⟩ := Text.exists_lineAt hcut
  have hof := Snippet.of?_lineAt hat
  have hsnippet := snippet?_of_span?_eq_some source hspan
  refine ⟨_, front.count '\n' + 1, String.ofList (Text.spaced (Text.dropReturns (left ++ right))),
    (toString (front.count '\n' + 1)).length + 2 + left.length, hat.endsLine, ?_, ?_⟩
  · exact Text.oneLine_spaced (Snippet.line_of_of?_eq_some hof).2
  · rw [render_of_snippet?_eq_some (hsnippet.trans hof), Snippet.slice?_marked hat,
      ← Text.pushn_add]
    simp only [Snippet.sourceLine, Snippet.markLine, String.append_assoc]

/-- A note without a valid position is shown as its header. -/
theorem Note.render_invalid {source : String} {n : Note}
    (h : ¬∃ span, n.span? = some span ∧ (⟨span.start⟩ : String.Pos.Raw).IsValid source)
    (color : Bool) : n.render source color = n.headerLine color ++ "\n" := by
  apply render_of_snippet?_eq_none
  cases hsnippet : n.snippet? source with
  | none => rfl
  | some s =>
    obtain ⟨span, hspan, hof⟩ := Option.bind_eq_some_iff.mp hsnippet
    refine absurd ⟨span, hspan, Text.isValid_iff.mpr ?_⟩ h
    cases hcut : Text.splitAtByte? span.start source.toList with
    | none =>
      rw [Snippet.of?_eq_none_iff.mpr hcut] at hof
      cases hof
    | some cut => exact ⟨cut, rfl⟩

/-- Whatever spans the notes of a chain have, showing them is safe.  As long as no field of blanks
    goes beyond the last column, no cut of the source and no field fails, and what is written is the
    text that is made character by character.  It is what the notes are shown as, in order.  A note
    is shown as its header, and it is shown with a line of the source exactly if it has a span that
    begins at a valid position of the source.  The mark below that line has one tilde for each
    character from there up to the end of the span or that of the line, and one if there is none,
    which is also so if the span ends before it begins or inside of a character. -/
theorem rendering_is_safe (source : String) (color : Bool) (d : Diagnostic)
    (hfits : ∀ n ∈ d.notes, ∀ s ∈ n.snippet? source, s.Fits) :
    d.renderByOffsets source color = .ok (d.render source color) ∧
      d.render source color = String.join (d.notes.map (·.render source color)) ∧
      ∀ n ∈ d.notes,
        ((¬∃ span, n.span? = some span ∧ (⟨span.start⟩ : String.Pos.Raw).IsValid source) →
          n.render source color = n.headerLine color ++ "\n") ∧
        ∀ span, n.span? = some span → (⟨span.start⟩ : String.Pos.Raw).IsValid source →
          ∃ stop number line blanks, Text.EndsLine source span.start stop ∧ Text.OneLine line ∧
            n.render source color = n.headerLine color ++ "\n" ++
              (Style.bold.paint color ++ Style.cyan.paint color ++ toString (number : Nat) ++
                ": " ++ Style.reset.paint color ++ line ++ "\n") ++
              (Style.bold.paint color ++ Style.cyan.paint color ++ "".pushn ' ' blanks ++
                "".pushn '~' (max 1
                  ((Text.slice? source ⟨span.start, min span.stop stop⟩).elim 0 String.length)) ++
                Style.reset.paint color ++ "\n") := by
  have hjoin := Diagnostic.render_eq source color d
  refine ⟨?_, hjoin, fun n hn => ⟨fun hinvalid => ?_, fun span hspan hvalid => ?_⟩⟩
  · rw [Diagnostic.renderByOffsets, renderNotesByOffsets_eq hfits, ← hjoin]
  · exact Note.render_invalid hinvalid color
  · exact Note.render_valid hspan hvalid color

/-- A chain of notes whose spans are reversed, cross lines, reach behind the source, end inside of a
    character, begin inside of one or begin behind the source. -/
theorem rendering_is_safe_sample :
    let source := "é a\n\tü\x0d\nb"
    let note (span : Span) : Note := { level := .error, message := "odd", span? := some span }
    let d : Diagnostic :=
      ⟨note ⟨3, 0⟩, [note ⟨2, 9⟩, note ⟨10, 99⟩, note ⟨5, 7⟩, note ⟨1, 3⟩, note ⟨12, 13⟩]⟩
    (∀ n ∈ d.notes, ∀ s ∈ n.snippet? source, s.Fits) ∧
      (∀ color, d.renderByOffsets source color = .ok (d.render source color)) ∧
      d.render source false = "error: odd\n1: é a\n     ~\n" ++ "error: odd\n1: é a\n    ~~\n" ++
        "error: odd\n3: b\n   ~\n" ++ "error: odd\n2:  ü\n   ~\n" ++ "error: odd\n" ++
        "error: odd\n" := by
  intro source note d
  have hfits : ∀ n ∈ d.notes, ∀ s ∈ n.snippet? source, s.Fits := by decide +kernel
  exact ⟨hfits, fun color => (rendering_is_safe source color d hfits).1, by decide +kernel⟩

end Acceptor
