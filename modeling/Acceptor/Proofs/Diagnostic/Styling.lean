import Acceptor.Proofs.Diagnostic.Lines

/-!
# Styling of diagnostics

Styles are written as escape sequences, which begin with an escape character and a bracket and end
with the next `m`.  If neither the source nor a message has an escape character, the only sequences
in what is written are those of the styles, so they can be taken out again, and what is left is what
is written without styling.  Every note resets the style at its end, and so does the number of a
line before the line itself.

* `Text.signs`              a text read as characters and escape sequences
* `signs_writeAll`          what is written for a list of fragments
* `dropEscapes_writeAll`, `escapes_writeAll`
* `color_only_adds_styling`
-/

namespace Acceptor

/-! ## Escape sequences -/

namespace Text

/-- What a terminal makes of a text: characters that are shown, and escape sequences. -/
inductive Sign
  | shown (c : Char)
  | escape (sequence : String)
deriving DecidableEq, Repr

/-- How far a sign has been read: not at all, up to the escape character, or up to the bracket and
    the characters behind it, last one first. -/
inductive Reading
  | outside
  | escape
  | sequence (taken : List Char)

/-- Reads a text.  What looks like the beginning of a sequence but does not go on like one, or does
    not end, is shown. -/
def signsFrom : Reading → List Char → List Sign
  | .outside, [] => []
  | .outside, c :: cs =>
    if c = '\x1b' then signsFrom .escape cs else .shown c :: signsFrom .outside cs
  | .escape, [] => [.shown '\x1b']
  | .escape, c :: cs =>
    if c = '[' then signsFrom (.sequence []) cs
    else if c = '\x1b' then .shown '\x1b' :: signsFrom .escape cs
    else .shown '\x1b' :: .shown c :: signsFrom .outside cs
  | .sequence taken, [] => ('\x1b' :: '[' :: taken.reverse).map .shown
  | .sequence taken, c :: cs =>
    if c = 'm' then
      .escape (String.ofList ('\x1b' :: '[' :: (c :: taken).reverse)) :: signsFrom .outside cs
    else signsFrom (.sequence (c :: taken)) cs

/-- The signs of a text. -/
def signs (text : String) : List Sign := signsFrom .outside text.toList

/-- The text without its escape sequences. -/
def dropEscapes (text : String) : String :=
  String.ofList ((signs text).filterMap fun
    | .shown c => some c
    | .escape _ => none)

/-- The escape sequences of the text. -/
def escapes (text : String) : List String :=
  (signs text).filterMap fun
    | .shown _ => none
    | .escape sequence => some sequence

example : dropEscapes "a\x1b[1;2mb\x1bc\x1b[3" = "ab\x1bc\x1b[3" := by decide
example : escapes "a\x1b[1;2mb\x1bc\x1b[3" = ["\x1b[1;2m"] := by decide

/-- Without an escape character, every character is shown. -/
theorem signsFrom_append {cs : List Char} (h : '\x1b' ∉ cs) (rest : List Char) :
    signsFrom .outside (cs ++ rest) = cs.map .shown ++ signsFrom .outside rest := by
  induction cs with
  | nil => rfl
  | cons c cs ih =>
    rw [List.mem_cons, not_or] at h
    rw [List.cons_append, signsFrom, if_neg (Ne.symm h.1), ih h.2]
    rfl

end Text

/-- The code of a style is a single escape sequence. -/
theorem Style.signsFrom_code (s : Style) (rest : List Char) :
    Text.signsFrom .outside (s.code.toList ++ rest) =
      .escape s.code :: Text.signsFrom .outside rest := by
  cases s <;> rfl

/-! ## Fragments -/

namespace Fragment

/-- The fragment has no escape sequences but those of styles. -/
def Clean (f : Fragment) : Prop := ∀ t, f = .text t → '\x1b' ∉ t.toList

@[simp] theorem clean_text {t : String} : (text t).Clean ↔ '\x1b' ∉ t.toList := by
  simp [Clean]

@[simp] theorem clean_style (s : Style) : (style s).Clean := fun _ h => nomatch h

/-- How the fragment reads when it is written with styling. -/
def signs : Fragment → List Text.Sign
  | .text t => t.toList.map .shown
  | .style s => [.escape s.code]

/-- The code of a change of style. -/
def code? : Fragment → Option String
  | .text _ => none
  | .style s => some s.code

variable {fs : List Fragment}

/-- What is written reads as the fragments do. -/
theorem signs_writeAll (h : ∀ f ∈ fs, f.Clean) :
    Text.signs (writeAll true fs) = fs.flatMap signs := by
  simp only [Text.signs]
  induction fs with
  | nil => rfl
  | cons f fs ih =>
    have hrest := ih fun g hg => h g (List.mem_cons_of_mem f hg)
    rw [writeAll_cons, String.toList_append, List.flatMap_cons]
    cases f with
    | text t =>
      have ht : '\x1b' ∉ t.toList := clean_text.mp (h _ List.mem_cons_self)
      rw [← hrest]
      exact Text.signsFrom_append ht _
    | style s =>
      rw [← hrest]
      exact s.signsFrom_code _

/-- Without the escape sequences, what is written with styling is what is written without. -/
theorem dropEscapes_writeAll (h : ∀ f ∈ fs, f.Clean) :
    Text.dropEscapes (writeAll true fs) = writeAll false fs := by
  apply String.toList_inj.mp
  simp only [Text.dropEscapes]
  rw [String.toList_ofList, signs_writeAll h]
  clear h
  induction fs with
  | nil => rfl
  | cons f fs ih =>
    rw [List.flatMap_cons, List.filterMap_append, ih, writeAll_cons, String.toList_append]
    cases f with
    | text t => simp [signs, write]
    | style s => simp [signs, write]

/-- The escape sequences of what is written are the codes of the styles. -/
theorem escapes_writeAll (h : ∀ f ∈ fs, f.Clean) :
    Text.escapes (writeAll true fs) = fs.filterMap code? := by
  simp only [Text.escapes]
  rw [signs_writeAll h]
  clear h
  induction fs with
  | nil => rfl
  | cons f fs ih =>
    rw [List.flatMap_cons, List.filterMap_append, ih, List.filterMap_cons]
    cases f with
    | text t => simp [signs, code?]
    | style s => simp [signs, code?]

end Fragment

/-! ## Notes -/

theorem Text.escape_not_mem_pushn {c : Char} (hc : c ≠ '\x1b') (n : Nat) :
    '\x1b' ∉ ("".pushn c n).toList := by
  simp [toList_pushn, Ne.symm hc]

/-- Numbers have no escape character. -/
theorem Text.escape_not_mem_toString (n : Nat) : '\x1b' ∉ (toString n).toList := by
  intro hmem
  have hdigit := isDigit_of_mem_toString hmem
  exact absurd hdigit (by decide)

theorem Snippet.clean_number (s : Snippet) :
    (Fragment.text (toString s.number ++ ": ")).Clean := by
  rw [Fragment.clean_text, String.toList_append, List.mem_append, not_or]
  exact ⟨Text.escape_not_mem_toString s.number, by decide⟩

theorem Snippet.clean_fragments {s : Snippet} (h : '\x1b' ∉ s.line) :
    ∀ f ∈ s.fragments, f.Clean := by
  have hnumber := Fragment.clean_text.mp s.clean_number
  have hline : '\x1b' ∉ (String.ofList (Text.spaced s.line) ++ "\n").toList := by
    rw [String.toList_append, String.toList_ofList, List.mem_append, not_or]
    exact ⟨Text.not_mem_spaced (by decide) h, by decide⟩
  have hgutter := Text.escape_not_mem_pushn (c := ' ') (by decide) ((toString s.number).length + 2)
  have hmark : '\x1b' ∉ ("".pushn ' ' s.column ++ "".pushn '~' (max 1 s.width)).toList := by
    rw [String.toList_append, List.mem_append, not_or]
    exact ⟨Text.escape_not_mem_pushn (by decide) _, Text.escape_not_mem_pushn (by decide) _⟩
  simp only [fragments, List.forall_mem_cons, Fragment.clean_style, Fragment.clean_text, true_and]
  exact ⟨hnumber, hline, hgutter, hmark, by decide, by simp⟩

namespace Note

variable {source : String} {n : Note}

theorem clean_header (h : '\x1b' ∉ n.message.toList) : ∀ f ∈ n.header, f.Clean := by
  have hlabel : '\x1b' ∉ n.level.label.toList := by
    cases n.level <;> decide
  simp [header, hlabel, h]

theorem clean_fragments (hsource : '\x1b' ∉ source.toList) (hmessage : '\x1b' ∉ n.message.toList) :
    ∀ f ∈ n.fragments source.toList, f.Clean := by
  have hheader := clean_header hmessage
  intro f hf
  rcases List.mem_append.mp hf with hf | hf
  · exact hheader f hf
  · cases hsnippet : n.span?.bind (Snippet.of? source.toList) with
    | none =>
      rw [hsnippet] at hf
      cases hf
    | some s =>
      rw [hsnippet] at hf
      obtain ⟨span, -, hof⟩ := Option.bind_eq_some_iff.mp hsnippet
      have hline : '\x1b' ∉ s.line := fun hmem => hsource ((Snippet.line_of_of?_eq_some hof).1 hmem)
      exact Snippet.clean_fragments hline f hf

/-- At its end a note resets the style and begins a new line. -/
theorem exists_fragments (source : List Char) (n : Note) :
    ∃ fs, n.fragments source = fs ++ [.style .reset, .text "\n"] := by
  simp only [fragments]
  cases n.span?.bind (Snippet.of? source) with
  | none => exact ⟨n.header.take 6, by simp [header]⟩
  | some s => exact ⟨n.header ++ s.fragments.take 9, by simp [Snippet.fragments]⟩

/-- What is written of a note with a snippet up to the line of the source. -/
def gutter (n : Note) (s : Snippet) : List Fragment :=
  n.header ++ [.style .bold, .style .cyan, .text (toString s.number ++ ": "), .style .reset]

theorem clean_gutter (h : '\x1b' ∉ n.message.toList) (s : Snippet) :
    ∀ f ∈ n.gutter s, f.Clean := by
  refine List.forall_mem_append.mpr ⟨clean_header h, ?_⟩
  simp only [List.forall_mem_cons, Fragment.clean_style, true_and]
  exact ⟨s.clean_number, by simp⟩

theorem writeAll_gutter (n : Note) (s : Snippet) :
    Fragment.writeAll true (n.gutter s) = n.headerLine true ++ "\n" ++
      (Style.bold.code ++ Style.cyan.code ++ (toString s.number ++ ": ") ++ Style.reset.code) := by
  simp [gutter, header, headerLine, Fragment.writeAll, Fragment.write, String.append_assoc]

end Note

/-! ## Main result -/

/-- Colour adds styling and nothing else.  If neither the source nor any message has an escape
    character, what is written with styling is what is written without as soon as the escape
    sequences are deleted.  Whatever is written above a note of the chain, the last escape sequence
    behind the note resets the style, and so does the last one in front of the line of the source
    that is shown with it. -/
theorem color_only_adds_styling (source : String) (d : Diagnostic)
    (hsource : '\x1b' ∉ source.toList) (hmessages : ∀ n ∈ d.notes, '\x1b' ∉ n.message.toList) :
    Text.dropEscapes (d.render source true) = d.render source false ∧
      d.render source true = String.join (d.notes.map (·.render source true)) ∧
      ∀ ns n ms, d.notes = ns ++ n :: ms →
        let above := String.join (ns.map (·.render source true))
        (Text.escapes (above ++ n.render source true)).getLast? = some Style.reset.code ∧
          ∀ s ∈ n.snippet? source,
            let gutter := n.headerLine true ++ "\n" ++ (Style.bold.code ++ Style.cyan.code ++
              (toString s.number ++ ": ") ++ Style.reset.code)
            n.render source true = gutter ++ String.ofList (Text.spaced s.line) ++ "\n" ++
                (s.markLine true ++ "\n") ∧
              (Text.escapes (above ++ gutter)).getLast? = some Style.reset.code := by
  have hclean : ∀ n ∈ d.notes, ∀ f ∈ n.fragments source.toList, f.Clean :=
    fun n hn => Note.clean_fragments hsource (hmessages n hn)
  have hall {ns : List Note} (h : ∀ n ∈ ns, n ∈ d.notes) :
      ∀ f ∈ ns.flatMap (·.fragments source.toList), f.Clean := by
    intro f hf
    obtain ⟨n, hn, hf⟩ := List.mem_flatMap.mp hf
    exact hclean n (h n hn) f hf
  refine ⟨Fragment.dropEscapes_writeAll (hall fun _ h => h), Diagnostic.render_eq source true d, ?_⟩
  intro ns n ms hnotes above
  have hn : n ∈ d.notes := by simp [hnotes]
  have habove : above = Fragment.writeAll true (ns.flatMap (·.fragments source.toList)) :=
    (Note.writeAll_flatMap source true ns).symm
  have hcleanAbove : ∀ f ∈ ns.flatMap (·.fragments source.toList), f.Clean :=
    hall fun m hm => by simp [hnotes, hm]
  refine ⟨?_, fun s hs => ⟨?_, ?_⟩⟩
  · obtain ⟨fs, hfs⟩ := n.exists_fragments source.toList
    have hrender : n.render source true = Fragment.writeAll true (n.fragments source.toList) := rfl
    have hcleanBoth := List.forall_mem_append.mpr ⟨hcleanAbove, hclean n hn⟩
    rw [habove, hrender, ← Fragment.writeAll_append, Fragment.escapes_writeAll hcleanBoth, hfs,
      ← List.append_assoc, List.filterMap_append]
    exact List.getLast?_concat
  · rw [Note.render_of_snippet?_eq_some hs]
    simp only [Snippet.sourceLine, Style.paint_true, String.append_assoc]
  · have hcleanBoth :=
      List.forall_mem_append.mpr ⟨hcleanAbove, Note.clean_gutter (hmessages n hn) s⟩
    rw [habove, ← Note.writeAll_gutter, ← Fragment.writeAll_append,
      Fragment.escapes_writeAll hcleanBoth, Note.gutter, ← List.append_assoc,
      List.filterMap_append, List.getLast?_append_of_ne_nil _ (by simp [Fragment.code?])]
    rfl

/-- A chain of notes of all levels about a source that holds what would be an escape sequence if
    there was an escape character in front of it. -/
theorem color_only_adds_styling_sample :
    let source := "é [1m\tm\nb"
    let first : Note := { level := .warning, message := "odd", span? := some ⟨3, 6⟩ }
    let second : Note := { level := .error, message := "[31m", span? := some ⟨8, 1⟩ }
    let hint : Note := { level := .help, message := "" }
    let d : Diagnostic := ⟨first, [second, hint]⟩
    ('\x1b' ∉ source.toList ∧ ∀ n ∈ d.notes, '\x1b' ∉ n.message.toList) ∧
      Text.dropEscapes (d.render source true) =
        "warning: odd\n1: é [1m m\n     ~~~\n" ++ "error: [31m\n1: é [1m m\n          ~\n" ++
          "help: \n" ∧
      (Text.escapes (first.render source true ++ second.render source true)).getLast? =
        some "\x1b[0;22m" := by
  intro source first second hint d
  have hsource : '\x1b' ∉ source.toList := by decide
  have hmessages : ∀ n ∈ d.notes, '\x1b' ∉ n.message.toList := by decide
  obtain ⟨hdrop, -, hnotes⟩ := color_only_adds_styling source d hsource hmessages
  have hplain : d.render source false =
      "warning: odd\n1: é [1m m\n     ~~~\n" ++ "error: [31m\n1: é [1m m\n          ~\n" ++
        "help: \n" := by
    decide +kernel
  refine ⟨⟨hsource, hmessages⟩, hdrop.trans hplain, ?_⟩
  have hlast := (hnotes [first] second [hint] rfl).1
  rwa [List.map_singleton, String.join_cons, String.join_nil, String.append_empty] at hlast

end Acceptor
