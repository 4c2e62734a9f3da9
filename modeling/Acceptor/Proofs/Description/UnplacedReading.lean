import Mathlib.Data.List.Basic
import Acceptor.Proofs.Description.LastSection
import Acceptor.Proofs.Description.Unplaced
import Acceptor.Proofs.Text.Pieces

/-!
# Lines with the same text

What is read from a line depends on its text; where the line stands decides nothing but the places
of what is read.  So lines with the same text have the same words, set the same parts of a
description to them, and are reported on in the same way, up to places.

* `map_unplaced_words_congr`          words of lines with the same text
* `set_unplaced`, `problems_unplaced` what words are read as, and the reports about them
* `Header.ofLine_congr`               such lines taken apart
-/

namespace Acceptor

/-- Equal values are the same up to places. -/
theorem Located.unplaced_congr {α : Type} {t u : Located α} (h : t.value = u.value) :
    t.unplaced = u.unplaced := by
  simp only [Located.unplaced]
  rw [h]

/-- Lines with the same text have the same words. -/
theorem Located.map_unplaced_words_congr {t u : Token} (h : t.value = u.value) :
    t.words.map Located.unplaced = u.words.map Located.unplaced := by
  apply Located.map_unplaced_congr
  simp only [Located.words]
  rw [Text.map_value_words, Text.map_value_words, h]

namespace Description

/-! ## Words -/

theorem readTransitions_unplaced (read? : String → Option Transition) (words : List Token) :
    (readTransitions read? words).map Located.unplaced =
      readTransitions read? (words.map Located.unplaced) := by
  simp only [readTransitions]
  rw [List.map_filterMap, List.filterMap_map]
  apply List.filterMap_congr
  intro word _
  show ((read? word.value).map _).map _ = (read? word.value).map _
  rw [Option.map_map]
  rfl

theorem extraStartWords_unplaced (words : List Token) :
    (extraStartWords words).map Diagnostic.unplaced =
      extraStartWords (words.map Located.unplaced) := by
  simp only [extraStartWords]
  rw [List.map_map, ← List.map_tail, List.map_map]
  rfl

theorem malformedTransitions_unplaced (read? : String → Option Transition) (form : String)
    (words : List Token) :
    (malformedTransitions read? form words).map Diagnostic.unplaced =
      malformedTransitions read? form (words.map Located.unplaced) := by
  simp only [malformedTransitions]
  rw [List.map_map, List.filter_map, List.map_map]
  rfl

theorem problems_unplaced (part : Section) (line : Token) (words : List Token) :
    (problems part line words).map Diagnostic.unplaced =
      problems part line.unplaced (words.map Located.unplaced) := by
  cases part with
  | accepting => rfl
  | states => rfl
  | transitions => exact malformedTransitions_unplaced _ _ words
  | start =>
    simp only [problems]
    rw [List.map_append, extraStartWords_unplaced, List.isEmpty_map]
    split <;> rfl

theorem set_unplaced (d : Description) (part : Section) (words : List Token) :
    (d.set part words).unplaced = d.unplaced.set part (words.map Located.unplaced) := by
  cases part with
  | accepting => rfl
  | states => rfl
  | start =>
    simp only [set, unplaced]
    rw [List.head?_map]
  | transitions =>
    simp only [set, unplaced]
    rw [readTransitions_unplaced]

end Description

/-! ## Headers -/

/-- Headers of the same kind with the same key and the same value, wherever they stand. -/
inductive Header.Alike : Header → Header → Prop
  | malformed : Alike .malformed .malformed
  | unknown {key key' : Token} (hkey : key.value = key'.value) : Alike (.unknown key) (.unknown key')
  | known (part : Section) {key key' value value' : Token} (hkey : key.value = key'.value)
    (hvalue : value.value = value'.value) : Alike (.known part key value) (.known part key' value')
  | tests {value value' : Token} (hvalue : value.value = value'.value) :
    Alike (.tests value) (.tests value')

/-- Pieces with the same characters are cut at the same place. -/
theorem Piece.cutAt?_congr {p p' : Piece} (h : p.chars = p'.chars) (c : Char) :
    p.cutAt? c = none ∧ p'.cutAt? c = none ∨
      ∃ before after before' after', p.cutAt? c = some (before, after) ∧
        p'.cutAt? c = some (before', after') ∧ before.chars = before'.chars ∧
        after.chars = after'.chars := by
  simp only [cutAt?]
  rw [h]
  cases p'.chars.span (· != c) with
  | mk before rest =>
    cases rest with
    | nil => exact .inl ⟨rfl, rfl⟩
    | cons d after => exact .inr ⟨_, _, _, _, rfl, rfl, rfl, rfl⟩

/-- Lines with the same text are taken apart in the same way. -/
theorem Header.ofLine_congr {l l' : Token} (h : l.value = l'.value) :
    (Header.ofLine l).Alike (Header.ofLine l') := by
  have hchars : (Piece.ofToken l).chars = (Piece.ofToken l').chars := congrArg String.toList h
  simp only [ofLine]
  rcases Piece.cutAt?_congr hchars ':' with ⟨hcut, hcut'⟩ |
    ⟨before, after, before', after', hcut, hcut', hbefore, hafter⟩
  · rw [hcut, hcut']
    exact .malformed
  · have hkey : before.trim.token.value = before'.trim.token.value := by
      simp only [Piece.token, Piece.trim, Piece.trimStart]
      rw [hbefore]
    have hvalue : after.token.value = after'.token.value := congrArg String.ofList hafter
    rw [hcut, hcut']
    dsimp only
    rw [hkey]
    split
    · exact .malformed
    · split
      · exact .tests hvalue
      · cases Section.ofKey? before'.trim.token.value with
        | none => exact .unknown hkey
        | some part => exact .known part hkey hvalue

end Acceptor
