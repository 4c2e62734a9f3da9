import Mathlib.Data.List.TakeDrop
import Acceptor.Text.Piece

/-!
# The texts of lines and words

`Text.lines` and `Text.words` return texts together with places.  Here the places are left out: the
texts of the lines are what stands between line feeds, trimmed, and the texts of the words are what
stands between blanks, empty ones dropped in both cases.  Cutting is undone by joining, so a source
that is written line by line and word by word is read back as it was written.

* `map_chars_pieces`          pieces are a split of the source
* `map_value_lines_unlines`   the lines of a text that was joined from lines
* `map_value_words`           the words of a text, wherever it stands
* `wordTexts_unwords`         the words of a text that was joined from words
-/

namespace Acceptor.Text

/-! ## Pieces -/

private theorem map_chars_piecesFrom (sep : Char → Bool) (found : Array Piece) (start here : Nat)
    (taken cs : List Char) :
    (piecesFrom sep found start here taken cs).map Piece.chars =
      found.toList.map Piece.chars ++ cs.splitOnPPrepend sep taken := by
  -- on both sides the characters of the piece under way are kept last one first
  induction cs generalizing found start here taken with
  | nil => simp [piecesFrom]
  | cons c cs ih =>
    simp only [piecesFrom]
    rw [List.splitOnPPrepend_cons_eq_if]
    split
    · rw [ih, Array.toList_push, List.map_append, List.append_assoc]
      rfl
    · exact ih ..

theorem map_chars_pieces (sep : Char → Bool) (base : Nat) (cs : List Char) :
    (pieces sep base cs).map Piece.chars = cs.splitOnP sep :=
  map_chars_piecesFrom sep #[] base base [] cs

/-! ## Cutting at a character -/

/-- A list is cut at the first occurrence of a character, if it has one. -/
theorem span_bne_eq_iff {c d : Char} {cs before after : List Char} :
    cs.span (· != c) = (before, d :: after) ↔ d = c ∧ c ∉ before ∧ cs = before ++ d :: after := by
  rw [List.span_eq_takeWhile_dropWhile]
  constructor
  · intro h
    obtain ⟨hbefore, hafter⟩ := Prod.mk.inj h
    have hstop := List.head?_dropWhile_not (· != c) cs
    rw [hafter] at hstop
    refine ⟨by simpa using hstop, fun hmem => ?_, ?_⟩
    · rw [← hbefore] at hmem
      simpa using List.all_eq_true.mp List.all_takeWhile c hmem
    · rw [← hbefore, ← hafter, List.takeWhile_append_dropWhile]
  · intro hparts
    obtain ⟨hdc, hmem, hcs⟩ := hparts
    subst hdc hcs
    have hbefore : ∀ e ∈ before, (e != d) = true := by
      intro e he
      exact bne_iff_ne.mpr fun hed => hmem (hed ▸ he)
    rw [List.takeWhile_append_of_pos hbefore, List.dropWhile_append_of_pos hbefore,
      List.takeWhile_cons_of_neg (by simp), List.dropWhile_cons_of_neg (by simp), List.append_nil]

/-- The first occurrence of a character stands no later than any other one. -/
theorem length_le_of_append_cons_eq {c : Char} {xs ys us vs : List Char}
    (h : xs ++ c :: us = ys ++ c :: vs) (hys : c ∉ ys) : ys.length ≤ xs.length := by
  rcases List.append_eq_append_iff.mp h with ⟨more, rfl, hmore⟩ | ⟨more, rfl, -⟩
  · cases more with
    | nil => simp
    | cons d more =>
      -- what stands behind `xs` would be one of the characters of `ys`
      obtain ⟨rfl, -⟩ := List.cons.inj hmore
      exact absurd (by simp) hys
  · simp

/-- A piece is cut at the first occurrence of a character. -/
theorem cutAt?_append_cons {c : Char} {before : List Char} (h : c ∉ before) (start : Nat)
    (after : List Char) :
    Piece.cutAt? c ⟨start, before ++ c :: after⟩ =
      some (⟨start, before⟩, ⟨start + byteLength before + c.utf8Size, after⟩) := by
  have hspan := span_bne_eq_iff.mpr ⟨rfl, h, (rfl : before ++ c :: after = _)⟩
  simp only [Piece.cutAt?]
  rw [hspan]

/-! ## Trimming -/

/-- The text without the blanks at either end. -/
def trimmed (s : String) : String := String.ofList (trim s.toList)

theorem trimStart_cons_of_not_blank {c : Char} (hc : isBlank c = false) (cs : List Char) :
    trimStart (c :: cs) = c :: cs :=
  List.dropWhile_cons_of_neg (by simp [hc])

theorem trim_of_not_blank {cs : List Char} (h : ∀ c ∈ cs, isBlank c = false) : trim cs = cs := by
  have hstart : trimStart cs = cs := by
    cases cs with
    | nil => rfl
    | cons c cs => exact trimStart_cons_of_not_blank (h c (by simp)) cs
  simp only [trim, trimEnd]
  rw [hstart]
  -- only the last character can be the first one to go
  cases hrev : cs.reverse with
  | nil => simpa using hrev
  | cons b bs =>
    have hb : b ∈ cs := List.mem_reverse.mp (hrev ▸ List.mem_cons_self)
    rw [List.dropWhile_cons_of_neg (by simp [h b hb]), ← hrev, List.reverse_reverse]

/-- Trimming the back stops at a character that is not blank. -/
theorem trimEnd_append_cons {c : Char} (hc : isBlank c = false) (xs ys : List Char) :
    trimEnd (xs ++ c :: ys) = xs ++ c :: trimEnd ys := by
  -- from behind, whatever is left of `ys` comes first, and then `c`
  have hstop : (c :: xs.reverse).dropWhile isBlank = c :: xs.reverse :=
    List.dropWhile_cons_of_neg (by simp [hc])
  simp only [trimEnd]
  rw [List.reverse_append, List.reverse_cons, List.append_assoc, List.singleton_append,
    List.dropWhile_append, hstop]
  split
  · next h =>
    -- nothing is left of `ys`
    rw [List.isEmpty_iff.mp h]
    simp
  · simp

/-- Trimming the back drops blanks. -/
theorem exists_trimEnd_append (cs : List Char) :
    ∃ bs, cs = trimEnd cs ++ bs ∧ ∀ b ∈ bs, isBlank b = true := by
  refine ⟨(cs.reverse.takeWhile isBlank).reverse, ?_, fun b hb => ?_⟩
  · simp only [trimEnd]
    rw [← List.reverse_append, List.takeWhile_append_dropWhile, List.reverse_reverse]
  · exact List.all_eq_true.mp List.all_takeWhile b (List.mem_reverse.mp hb)

/-- Trimming the front drops blanks. -/
theorem exists_append_trimStart (cs : List Char) :
    ∃ bs, cs = bs ++ trimStart cs ∧ ∀ b ∈ bs, isBlank b = true := by
  refine ⟨cs.takeWhile isBlank, List.takeWhile_append_dropWhile.symm, fun b hb => ?_⟩
  exact List.all_eq_true.mp List.all_takeWhile b hb

/-! ## Lines -/

private theorem map_value_trimmed_pieces (ps : List Piece) :
    (((ps.map Piece.trim).filter (! ·.isEmpty)).map Piece.token).map (·.value) =
      (((ps.map Piece.chars).map trim).filter (! ·.isEmpty)).map String.ofList := by
  induction ps with
  | nil => rfl
  | cons p ps ih =>
    simp only [List.map_cons, List.filter_cons]
    have hchars : p.trim.isEmpty = (trim p.chars).isEmpty := rfl
    rw [hchars]
    split
    · rw [List.map_cons, List.map_cons, List.map_cons, ih]
      rfl
    · exact ih

/-- The texts of lines, without their places: what stands between line feeds, trimmed, empty ones
    dropped. -/
def lineTexts (cs : List Char) : List String :=
  (((cs.splitOn '\n').map trim).filter (! ·.isEmpty)).map String.ofList

/-- The lines of a text that stands at byte offset `base`. -/
def linesAt (base : Nat) (cs : List Char) : List Token :=
  (((pieces (· == '\n') base cs).map Piece.trim).filter (! ·.isEmpty)).map Piece.token

theorem map_value_linesAt (base : Nat) (cs : List Char) :
    (linesAt base cs).map (·.value) = lineTexts cs := by
  simp only [linesAt]
  rw [map_value_trimmed_pieces, map_chars_pieces]
  rfl

theorem map_value_lines (source : String) :
    (lines source).map (·.value) = lineTexts source.toList :=
  map_value_linesAt 0 source.toList

/-- A text joined from lines is read as these lines, trimmed, without those that are blank. -/
theorem map_value_lines_intercalate {ls : List String} (hne : ls ≠ [])
    (hls : ∀ l ∈ ls, '\n' ∉ l.toList) :
    (lines ("\n".intercalate ls)).map (·.value) = (ls.map trimmed).filter (· ≠ "") := by
  have hsplit : ("\n".intercalate ls).toList.splitOn '\n' = ls.map String.toList := by
    rw [String.toList_intercalate]
    apply List.splitOn_intercalate
    · intro l hl
      obtain ⟨t, ht, rfl⟩ := List.mem_map.mp hl
      exact hls t ht
    · simpa using hne
  rw [map_value_lines, lineTexts, hsplit]
  clear hne hls hsplit
  -- a line is dropped on one side if and only if it is dropped on the other
  induction ls with
  | nil => rfl
  | cons l ls ih =>
    have hempty : trimmed l = "" ↔ trim l.toList = [] := String.ofList_eq_empty_iff
    simp only [List.map_cons, List.filter_cons]
    by_cases hl : trim l.toList = []
    · rw [hl, hempty.mpr hl]
      exact ih
    · rw [if_pos (by simpa using hl), if_pos (by simpa using mt hempty.mp hl), List.map_cons, ih]
      rfl

/-- A text that is read as one line: it has characters, no line feed among them and no blanks at
    either end. -/
structure IsLine (l : String) : Prop where
  ne_empty : l ≠ ""
  no_newline : '\n' ∉ l.toList
  trimmed_eq : trimmed l = l

instance (l : String) : Decidable (IsLine l) :=
  decidable_of_iff (l ≠ "" ∧ '\n' ∉ l.toList ∧ trimmed l = l)
    ⟨fun h => ⟨h.1, h.2.1, h.2.2⟩, fun h => ⟨h.1, h.2, h.3⟩⟩

/-- Lines joined by line feeds, with one more behind the last line if the text is `closed`. -/
def unlines (ls : List String) (closed : Bool) : String :=
  "\n".intercalate ls ++ if closed then "\n" else ""

/-- If none of the lines is blank, all of them are read. -/
theorem map_value_lines_unlines {ls : List String} (closed : Bool) (hne : ls ≠ [])
    (hls : ∀ l ∈ ls, '\n' ∉ l.toList ∧ trimmed l ≠ "") :
    (lines (unlines ls closed)).map (·.value) = ls.map trimmed := by
  -- no line is dropped
  have hall : (ls.map trimmed).filter (· ≠ "") = ls.map trimmed := by
    rw [List.filter_eq_self]
    intro t ht
    obtain ⟨l, hl, rfl⟩ := List.mem_map.mp ht
    simpa using (hls l hl).2
  simp only [unlines]
  cases closed with
  | false =>
    rw [if_neg (by simp), String.append_empty,
      map_value_lines_intercalate hne fun l hl => (hls l hl).1, hall]
  | true =>
    -- the last line feed is followed by an empty line
    have hjoin : "\n".intercalate ls ++ "\n" = "\n".intercalate (ls ++ [""]) := by
      rw [String.intercalate_append_of_ne_nil hne (by simp), String.intercalate_singleton,
        String.append_empty]
    have hno : ∀ l ∈ ls ++ [""], '\n' ∉ l.toList := by
      intro l hl
      rcases List.mem_append.mp hl with hl | hl
      · exact (hls l hl).1
      · rw [List.mem_singleton.mp hl]
        simp
    rw [if_pos rfl, hjoin, map_value_lines_intercalate (by simp) hno, List.map_append,
      List.filter_append, hall]
    exact List.append_nil _

/-! ## Words -/

/-- A text that is read as one word: it has characters, and none of them is a blank. -/
structure IsWord (w : String) : Prop where
  ne_empty : w ≠ ""
  not_blank : ∀ c ∈ w.toList, isBlank c = false

instance (w : String) : Decidable (IsWord w) :=
  decidable_of_iff (w ≠ "" ∧ w.toList.all (! isBlank ·) = true)
    ⟨fun h => ⟨h.1, by simpa using h.2⟩, fun h => ⟨h.1, by simpa using h.2⟩⟩

theorem IsWord.newline_not_mem {w : String} (hw : IsWord w) : '\n' ∉ w.toList := by
  intro hmem
  have hblank : isBlank '\n' = true := by decide
  rw [hw.not_blank _ hmem] at hblank
  exact nomatch hblank

/-- The words of a text, without their places. -/
def wordTexts (cs : List Char) : List String :=
  ((cs.splitOnP isBlank).filter (! ·.isEmpty)).map String.ofList

/-- Words joined by single spaces. -/
def unwords (ws : List String) : String := " ".intercalate ws

theorem toList_unwords_cons (w v : String) (ws : List String) :
    (unwords (w :: v :: ws)).toList = w.toList ++ ' ' :: (unwords (v :: ws)).toList := by
  simp only [unwords]
  simp

theorem map_value_words (text : String) (base : Nat) :
    (words text base).map (·.value) = wordTexts text.toList := by
  simp only [words, wordTexts]
  rw [← map_chars_pieces isBlank base]
  induction pieces isBlank base text.toList with
  | nil => rfl
  | cons p ps ih =>
    have hchars : p.isEmpty = p.chars.isEmpty := rfl
    simp only [List.map_cons, List.filter_cons]
    rw [hchars]
    split
    · rw [List.map_cons, List.map_cons, List.map_cons, ih]
      rfl
    · exact ih

@[simp] theorem wordTexts_nil : wordTexts [] = [] := rfl

/-- No word reaches across a blank. -/
theorem wordTexts_append_cons {b : Char} (hb : isBlank b = true) (xs ys : List Char) :
    wordTexts (xs ++ b :: ys) = wordTexts xs ++ wordTexts ys := by
  simp only [wordTexts]
  rw [List.splitOnP_append_cons xs ys hb, List.filter_append, List.map_append]

theorem wordTexts_cons_blank {b : Char} (hb : isBlank b = true) (ys : List Char) :
    wordTexts (b :: ys) = wordTexts ys :=
  wordTexts_append_cons hb [] ys

theorem wordTexts_word {w : String} (hw : IsWord w) : wordTexts w.toList = [w] := by
  have hne : w.toList ≠ [] := by simpa using hw.ne_empty
  simp only [wordTexts]
  rw [List.splitOnP_eq_singleton hw.not_blank]
  simp [hne]

/-- A text that begins with a character of a word has a word. -/
theorem wordTexts_cons_ne_nil {c : Char} (hc : isBlank c = false) (cs : List Char) :
    wordTexts (c :: cs) ≠ [] := by
  simp only [wordTexts]
  rw [List.splitOnP_cons_eq_if_modifyHead, if_neg (by simp [hc])]
  cases hcs : cs.splitOnP isBlank with
  | nil => exact absurd hcs (List.splitOnP_ne_nil isBlank cs)
  | cons w ws => simp

theorem wordTexts_blanks_append {bs : List Char} (hbs : ∀ b ∈ bs, isBlank b = true)
    (ys : List Char) : wordTexts (bs ++ ys) = wordTexts ys := by
  induction bs with
  | nil => rfl
  | cons b bs ih =>
    rw [List.cons_append, wordTexts_cons_blank (hbs b (by simp))]
    exact ih fun c hc => hbs c (by simp [hc])

theorem wordTexts_append_blanks {bs : List Char} (hbs : ∀ b ∈ bs, isBlank b = true)
    (xs : List Char) : wordTexts (xs ++ bs) = wordTexts xs := by
  cases bs with
  | nil => rw [List.append_nil]
  | cons b bs =>
    -- the first blank ends the words of `xs`, and there are none behind it
    have hnone : wordTexts bs = [] := by
      have hbs' : ∀ c ∈ bs, isBlank c = true := fun c hc => hbs c (by simp [hc])
      rw [← List.append_nil bs, wordTexts_blanks_append hbs', wordTexts_nil]
    rw [wordTexts_append_cons (hbs b (by simp)), hnone, List.append_nil]

/-- Trimming takes no part of any word away. -/
@[simp] theorem wordTexts_trimEnd (cs : List Char) : wordTexts (trimEnd cs) = wordTexts cs := by
  obtain ⟨bs, hcs, hbs⟩ := exists_trimEnd_append cs
  calc wordTexts (trimEnd cs)
    _ = wordTexts (trimEnd cs ++ bs) := (wordTexts_append_blanks hbs _).symm
    _ = wordTexts cs := by rw [← hcs]

@[simp] theorem wordTexts_trim (cs : List Char) : wordTexts (trim cs) = wordTexts cs := by
  obtain ⟨bs, hcs, hbs⟩ := exists_append_trimStart cs
  calc wordTexts (trim cs)
    _ = wordTexts (trimStart cs) := wordTexts_trimEnd _
    _ = wordTexts (bs ++ trimStart cs) := (wordTexts_blanks_append hbs _).symm
    _ = wordTexts cs := by rw [← hcs]

/-- A trimmed text tells its words. -/
theorem wordTexts_toList_trimmed (s : String) :
    wordTexts (trimmed s).toList = wordTexts s.toList := by
  simp only [trimmed]
  rw [String.toList_ofList, wordTexts_trim]

theorem map_value_lineWords {line : Token} {text : String} (hline : line.value = trimmed text) :
    line.words.map (·.value) = wordTexts text.toList := by
  simp only [Located.words]
  rw [map_value_words, hline, wordTexts_toList_trimmed]

/-- Words that are joined are read as these words. -/
theorem wordTexts_unwords {ws : List String} (hws : ∀ w ∈ ws, IsWord w) :
    wordTexts (unwords ws).toList = ws := by
  induction ws with
  | nil => simp [unwords]
  | cons w ws ih =>
    have hw := hws w (by simp)
    have hrest := ih fun v hv => hws v (by simp [hv])
    cases ws with
    | nil =>
      -- there is no space behind the last word
      rw [unwords, String.intercalate_singleton]
      exact wordTexts_word hw
    | cons v vs =>
      rw [toList_unwords_cons, wordTexts_append_cons (by decide), wordTexts_word hw, hrest]
      rfl

/-- Only the spaces of joined words are blank. -/
theorem mem_unwords {ws : List String} {c : Char} (hc : c ∈ (unwords ws).toList) :
    c = ' ' ∨ ∃ w ∈ ws, c ∈ w.toList := by
  induction ws with
  | nil => simp [unwords] at hc
  | cons w ws ih =>
    cases ws with
    | nil =>
      rw [unwords, String.intercalate_singleton] at hc
      exact .inr ⟨w, by simp, hc⟩
    | cons v vs =>
      rw [toList_unwords_cons, List.mem_append, List.mem_cons] at hc
      rcases hc with hc | hc | hc
      · exact .inr ⟨w, by simp, hc⟩
      · exact .inl hc
      · rcases ih hc with h | ⟨u, hu, h⟩
        · exact .inl h
        · exact .inr ⟨u, by simp [hu], h⟩

/-- Joined words stand on one line. -/
theorem newline_not_mem_unwords {ws : List String} (hws : ∀ w ∈ ws, IsWord w) :
    '\n' ∉ (unwords ws).toList := by
  intro hmem
  rcases mem_unwords hmem with h | ⟨w, hw, h⟩
  · exact absurd h (by decide)
  · exact (hws w hw).newline_not_mem h

end Acceptor.Text
