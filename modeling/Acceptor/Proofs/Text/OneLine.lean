import Acceptor.Text.Quoted
import Acceptor.Proofs.Text.LineEnds

/-!
# Texts on one line

A text without line feeds stands on one line.  Lines that are each ended by a line feed can be told
apart again, and the line at a place of a text is found by counting the line feeds in front of it.
Quoting escapes line feeds, so whatever is quoted stands on one line.

* `splitOn_line`          the line at a place of a text
* `splitLines_join`       lines can be told apart
* `oneLine_toString`      numbers
* `oneLine_quoteString`, `oneLine_quoteChar`
-/

namespace Acceptor

/-- The text has no line feed. -/
def Text.OneLine (text : String) : Prop := '\n' ∉ text.toList

namespace Text

instance (text : String) : Decidable (OneLine text) := inferInstanceAs (Decidable (¬ _))

@[simp] theorem oneLine_empty : OneLine "" := by simp [OneLine]

@[simp] theorem oneLine_append {s t : String} : OneLine (s ++ t) ↔ OneLine s ∧ OneLine t := by
  simp [OneLine]

theorem oneLine_join {ls : List String} (h : ∀ l ∈ ls, OneLine l) : OneLine (String.join ls) := by
  simp only [OneLine]
  rw [String.toList_join, List.mem_flatMap]
  rintro ⟨l, hl, hmem⟩
  exact h l hl hmem

/-! ## Splitting at line feeds -/

theorem splitOn_of_newline_not_mem {xs : List Char} (hxs : '\n' ∉ xs) : xs.splitOn '\n' = [xs] :=
  List.splitOnP_eq_singleton fun _ hc => beq_eq_false_iff_ne.mpr fun h => hxs (h ▸ hc)

theorem splitOn_append_newline (xs ys : List Char) :
    (xs ++ '\n' :: ys).splitOn '\n' = xs.splitOn '\n' ++ ys.splitOn '\n' :=
  List.splitOnP_append_cons _ _ (beq_self_eq_true '\n')

/-- There is one line more than there are line feeds. -/
theorem length_splitOn (cs : List Char) : (cs.splitOn '\n').length = cs.count '\n' + 1 := by
  induction cs using line_induction with
  | last xs hxs => rw [splitOn_of_newline_not_mem hxs, List.count_eq_zero.mpr hxs]; rfl
  | next xs ys hxs ih =>
    rw [splitOn_append_newline, splitOn_of_newline_not_mem hxs, List.length_append, ih,
      List.count_append, List.count_eq_zero.mpr hxs, List.count_cons_self, List.length_singleton]
    omega

/-- A line is found by counting the line feeds in front of it. -/
theorem splitOn_line {front xs rest : List Char} (hfront : LineBegins front) (hxs : '\n' ∉ xs)
    (hrest : LineEnds rest) :
    ((front ++ xs ++ rest).splitOn '\n')[front.count '\n']? = some xs := by
  -- the line is the first one behind `front`
  have hfirst : ((xs ++ rest).splitOn '\n').head? = some xs := by
    cases rest with
    | nil => rw [List.append_nil, splitOn_of_newline_not_mem hxs]; rfl
    | cons c rest =>
      obtain rfl : c = '\n' := hrest c rfl
      rw [splitOn_append_newline, splitOn_of_newline_not_mem hxs]
      rfl
  cases front using List.reverseRecOn with
  | nil => rw [List.nil_append, List.count_nil, ← List.head?_eq_getElem?, hfirst]
  | append_singleton front c =>
    obtain rfl : c = '\n' := hfront c (by simp)
    have hcount : (front ++ ['\n']).count '\n' = (front.splitOn '\n').length := by
      rw [length_splitOn, List.count_append, List.count_singleton_self]
    rw [hcount, List.append_assoc, List.append_assoc, List.singleton_append,
      splitOn_append_newline, List.getElem?_append_right (Nat.le_refl _), Nat.sub_self,
      ← List.head?_eq_getElem?, hfirst]

/-- The last line is what stands behind the last line feed. -/
theorem getLast?_splitOn {front xs : List Char} (hfront : LineBegins front) (hxs : '\n' ∉ xs) :
    ((front ++ xs).splitOn '\n').getLast? = some xs := by
  have hline := splitOn_line hfront hxs lineEnds_nil
  rw [List.append_nil] at hline
  have hcount : (front ++ xs).count '\n' = front.count '\n' := by
    rw [List.count_append, List.count_eq_zero.mpr hxs, Nat.add_zero]
  rw [List.getLast?_eq_getElem?, length_splitOn, hcount, Nat.add_sub_cancel, hline]

/-! ## Lines of a text -/

/-- What stands between the line feeds of a text; the last line is what stands behind the last line
    feed. -/
def splitLines (text : String) : List String := (text.toList.splitOn '\n').map String.ofList

theorem splitLines_append_newline (s t : String) :
    splitLines (s ++ "\n" ++ t) = splitLines s ++ splitLines t := by
  have hchars : (s ++ "\n" ++ t).toList = s.toList ++ '\n' :: t.toList := by
    simp
  simp only [splitLines]
  rw [hchars, splitOn_append_newline, List.map_append]

theorem splitLines_of_oneLine {s : String} (h : OneLine s) : splitLines s = [s] := by
  simp only [splitLines]
  rw [splitOn_of_newline_not_mem h, List.map_singleton, String.ofList_toList]

/-- Lines that are each ended by a line feed can be told apart. -/
theorem splitLines_join {ls : List String} (h : ∀ l ∈ ls, OneLine l) :
    splitLines (String.join (ls.map (· ++ "\n"))) = ls ++ [""] := by
  induction ls with
  | nil => rfl
  | cons l ls ih =>
    rw [List.map_cons, String.join_cons, splitLines_append_newline,
      splitLines_of_oneLine (h l (by simp)), ih fun m hm => h m (by simp [hm])]
    rfl

/-- The line at a place, as a line of the source. -/
theorem splitLines_line {source : String} {front xs rest : List Char} (hfront : LineBegins front)
    (hxs : '\n' ∉ xs) (hrest : LineEnds rest) (hsource : source.toList = front ++ xs ++ rest) :
    (splitLines source)[front.count '\n']? = some (String.ofList xs) := by
  simp only [splitLines]
  rw [hsource, List.getElem?_map, splitOn_line hfront hxs hrest]
  rfl

/-! ## Numbers -/

/-- Numbers are written in digits. -/
theorem isDigit_of_mem_toString {n : Nat} {c : Char} (h : c ∈ (toString n).toList) :
    c.isDigit = true := by
  have hdigits : (toString n).toList = Nat.toDigits 10 n := String.toList_ofList
  rw [hdigits] at h
  exact Nat.isDigit_of_mem_toDigits (by decide) (by decide) h

theorem oneLine_toString (n : Nat) : OneLine (toString n) := by
  intro hmem
  have hdigit := isDigit_of_mem_toString hmem
  exact absurd hdigit (by decide)

/-! ## Blanks and quoted texts -/

theorem toList_pushn (s : String) (c : Char) (n : Nat) :
    (s.pushn c n).toList = s.toList ++ List.replicate n c := by
  rw [String.pushn_eq_repeat_push]
  induction n with
  | zero => simp [Nat.repeat]
  | succ n ih => simp [Nat.repeat, ih, List.replicate_succ']

theorem pushn_add (c : Char) (m n : Nat) : "".pushn c m ++ "".pushn c n = "".pushn c (m + n) := by
  apply String.toList_inj.mp
  simp [toList_pushn, List.replicate_append_replicate]

theorem oneLine_pushn {c : Char} (hc : c ≠ '\n') (n : Nat) : OneLine ("".pushn c n) := by
  simp [OneLine, toList_pushn, Ne.symm hc]

theorem oneLine_blanks (n : Nat) : OneLine ("".pushn ' ' n) := oneLine_pushn (by decide) n

/-- Hexadecimal digits are no line feeds. -/
theorem newline_not_mem_toDigits (n : Nat) : '\n' ∉ Nat.toDigits 16 n := by
  induction n using Nat.strongRecOn with
  | ind n ih =>
    rw [Nat.toDigits_eq_if (by decide)]
    split
    · simp
    · have hlt : n / 16 < n := Nat.div_lt_self (by omega) (by decide)
      simp [ih _ hlt]

theorem newline_not_mem_escape (mark c : Char) : '\n' ∉ escape mark c := by
  simp only [escape]
  cases hletter : escapeLetter? mark c with
  | some letter =>
    -- a line feed is written as a letter, as the other characters that have one
    have hne : letter ≠ '\n' := by
      simp only [escapeLetter?] at hletter
      grind
    simp [Ne.symm hne]
  | none =>
    have hne : c ≠ '\n' := by
      rintro rfl
      exact nomatch hletter
    dsimp only
    split
    · simp [codePointEscape, newline_not_mem_toDigits]
    · simp [Ne.symm hne]

/-- A quoted character stands on one line, even if it is a line feed. -/
theorem oneLine_quoteChar (c : Char) : OneLine (quoteChar c) := by
  have hescape := newline_not_mem_escape singleQuote c
  have hquote : '\n' ≠ singleQuote := by decide
  simp only [OneLine, quoteChar]
  rw [String.toList_ofList]
  simp [hescape, hquote]

/-- A quoted text stands on one line, whatever it holds. -/
theorem oneLine_quoteString (s : String) : OneLine (quoteString s) := by
  have hquote : '\n' ≠ doubleQuote := by decide
  simp only [OneLine, quoteString]
  rw [String.toList_ofList]
  simp [newline_not_mem_escape, hquote]

end Text

end Acceptor
