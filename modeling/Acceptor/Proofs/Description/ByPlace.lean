import Acceptor.Proofs.Description.Ambiguity
import Acceptor.Proofs.Description.Start

/-!
# Meaning by place

In the legacy layout a line means what its place says, and the only choice is whether the third line
lists the transitions or further states.  `ReadByPlace` says what is read from the lines and what is
reported about them by looking at the words at each place.

* `transitionPlace`   where the transitions are listed
* `readLegacy_eq`     the parts of a description and the reports, place by place
* `parse_by_place`    sources in the legacy layout
-/

namespace Acceptor

/-- The words of the line at a place; none if there is no such line. -/
def Text.wordsAt (lines : List Token) (place : Nat) : List Token :=
  (lines[place]?.map Located.words).getD []

/-- The word is split into the transition, one character for each part of it. -/
structure Transition.SplitFrom (word : Token) (t : Located Transition) : Prop where
  toList_eq : word.value.toList =
    t.value.source.toList ++ t.value.symbol :: t.value.target.toList
  length_source : t.value.source.length = 1
  length_target : t.value.target.length = 1
  span_eq : t.span = word.span

namespace Description

open Text (wordsAt)

/-! ## Places -/

theorem wordsAt_of_length_le {lines : List Token} {place : Nat} (h : lines.length ≤ place) :
    wordsAt lines place = [] := by
  simp only [wordsAt]
  rw [List.getElem?_eq_none h]
  rfl

/-- The place of the list of transitions: if the first word of the third line has three characters,
    it is that line, and otherwise the fourth one. -/
def transitionPlace (lines : List Token) : Nat :=
  if (wordsAt lines 2).head?.any (·.value.length == 3) then 2 else 3

theorem transitionPlace_of_reads {third : Token} (h : readsAsTransitions third = true)
    (accepting start : Token) (rest : List Token) :
    transitionPlace (accepting :: start :: third :: rest) = 2 :=
  if_pos h

theorem transitionPlace_of_not_reads {third : Token} (h : ¬readsAsTransitions third = true)
    (accepting start : Token) (rest : List Token) :
    transitionPlace (accepting :: start :: third :: rest) = 3 :=
  if_neg h

/-! ## Reports -/

/-- What is said about a description that ends after so many lines. -/
def missingLineMessage : Nat → String
  | 0 => "empty description, expected a line of accepting states"
  | 1 => "expected the start state on the second line"
  | 2 => "expected a line of transitions"
  | _ => "expected a line of transitions after the state list"

/-- The report if one of the first three lines is missing, or the fourth one although the third
    lists states.  It is about the end of the source, or about no place if there are no lines. -/
def missingLines (eof : Span) (lines : List Token) : List Diagnostic :=
  if lines.length < 3 ∨ (lines.length = 3 ∧ transitionPlace lines = 3) then
    [.error (some .missingLine) (missingLineMessage lines.length)
      (if lines = [] then none else some eof)]
  else []

/-- The report, if it is wanted, that the third line is taken for the list of transitions although
    it has words of another length, the first of which is pointed out. -/
def ambiguities (flagAmbiguity : Bool) (lines : List Token) : List Diagnostic :=
  match lines[2]?, (wordsAt lines 2).find? (·.value.length != 3) with
  | some third, some odd =>
    if flagAmbiguity = true ∧ transitionPlace lines = 2 then
      [(Diagnostic.warning .ambiguousLayout
        "line read as transitions because its first token is three characters long"
        third.span).withHelp (ambiguityHint odd)]
    else []
  | _, _ => []

theorem ambiguities_of_reads {third : Token} (h : readsAsTransitions third = true)
    (flagAmbiguity : Bool) (accepting start : Token) (rest : List Token) :
    ambiguities flagAmbiguity (accepting :: start :: third :: rest) =
      if flagAmbiguity then ambiguousLine third else [] := by
  have hplace := transitionPlace_of_reads h accepting start rest
  have hfind : (wordsAt (accepting :: start :: third :: rest) 2).find? (·.value.length != 3) =
      third.words.find? (! isThreeLong ·) := rfl
  have hthird : (accepting :: start :: third :: rest)[2]? = some third := rfl
  simp only [ambiguities, ambiguousLine]
  rw [hfind, hthird, hplace]
  cases third.words.find? (! isThreeLong ·) with
  | none => exact (ite_self _).symm
  | some odd => simp [ambiguityHint, sectionedMarker, String.append_assoc]

theorem ambiguities_of_place_ne {lines : List Token} (h : transitionPlace lines ≠ 2)
    (flagAmbiguity : Bool) : ambiguities flagAmbiguity lines = [] := by
  simp only [ambiguities]
  split
  · exact if_neg fun hflag => h hflag.2
  · rfl

/-- Where a line is missing there is nothing to be read as a transition. -/
theorem nothing_behind_missingLines {eof : Span} {lines : List Token}
    (h : missingLines eof lines ≠ []) (flagAmbiguity : Bool) :
    ambiguities flagAmbiguity lines = [] ∧ wordsAt lines (transitionPlace lines) = [] := by
  have hplace : transitionPlace lines = 3 ∧ lines.length ≤ 3 := by
    simp only [missingLines] at h
    split at h
    · next hmissing =>
      rcases hmissing with hlength | ⟨hlength, hplace⟩
      · refine ⟨?_, Nat.le_of_lt hlength⟩
        simp only [transitionPlace]
        rw [wordsAt_of_length_le (Nat.le_of_lt_succ hlength)]
        rfl
      · exact ⟨hplace, Nat.le_of_eq hlength⟩
    · exact absurd rfl h
  -- at most three lines, so none at the place of the transitions
  obtain ⟨hplace, hlength⟩ := hplace
  refine ⟨ambiguities_of_place_ne (by simp [hplace]) flagAmbiguity, ?_⟩
  rw [hplace, wordsAt_of_length_le hlength]

/-! ## Reading -/

/-- Everything that is read and reported, place by place. -/
theorem readLegacy_eq (flagAmbiguity : Bool) (eof : Span) (lines : List Token) :
    readLegacy flagAmbiguity eof lines =
      ({ accepting := wordsAt lines 0
         start := (wordsAt lines 1).head?
         others := if transitionPlace lines = 2 then [] else wordsAt lines 2
         transitions := readTransitions Transition.compact? (wordsAt lines (transitionPlace lines))
         tests := lines.drop (transitionPlace lines + 1) },
        extraStartWords (wordsAt lines 1) ++ (missingLines eof lines ++
          (ambiguities flagAmbiguity lines ++
            malformedTransitions Transition.compact? "<from><symbol><to>"
              (wordsAt lines (transitionPlace lines))))) := by
  match lines with
  | [] => rfl
  | [accepting] => rfl
  | [accepting, start] => rfl
  | accepting :: start :: third :: rest =>
    simp only [readLegacy]
    by_cases hthird : readsAsTransitions third = true
    · -- the third line lists the transitions
      have hplace := transitionPlace_of_reads hthird accepting start rest
      have hmissing : missingLines eof (accepting :: start :: third :: rest) = [] :=
        if_neg (by simp [hplace])
      rw [if_pos hthird, hmissing, ambiguities_of_reads hthird, hplace]
      rfl
    · have hplace := transitionPlace_of_not_reads hthird accepting start rest
      rw [if_neg hthird, ambiguities_of_place_ne (by simp [hplace]), hplace]
      cases rest with
      | nil =>
        -- the third line lists states, and there is no line behind it
        have hmissing : missingLines eof [accepting, start, third] =
            [missingLine "expected a line of transitions after the state list" (some eof)] :=
          if_pos (.inr ⟨rfl, hplace⟩)
        rw [hmissing]
        rfl
      | cons line rest =>
        have hmissing : missingLines eof (accepting :: start :: third :: line :: rest) = [] :=
          if_neg (by simp)
        rw [hmissing]
        rfl

/-- The transitions of the compact form are split from the words of three characters. -/
theorem forall₂_splitFrom (words : List Token) :
    List.Forall₂ Transition.SplitFrom (words.filter (·.value.length == 3))
      (readTransitions Transition.compact? words) := by
  have hlength : (fun word : Token => (Transition.compact? word.value).isSome) =
      fun word => word.value.length == 3 := by
    funext word
    rw [Bool.eq_iff_iff, Transition.isSome_compact?_iff, beq_iff_eq]
  rw [← hlength]
  refine (forall₂_readTransitions Transition.compact? words).imp fun word t ⟨hread, hspan⟩ => ?_
  obtain ⟨hword, hsource, htarget⟩ := Transition.compact?_eq_some_iff.mp hread
  exact ⟨hword, hsource, htarget, hspan⟩

theorem head?_wordsAt_eq_none_iff {source : String} {place : Nat} :
    (wordsAt (Text.lines source) place).head? = none ↔ (Text.lines source)[place]? = none := by
  simp only [wordsAt]
  cases hline : (Text.lines source)[place]? with
  | none => simp
  | some line =>
    -- a line is never without a word
    have hwords := (Text.placed_of_mem_lines (List.mem_of_getElem? hline)).2.words_ne_nil
    simpa using hwords

/-- What the lines of a source that ends at `eof` mean by their places, and what is reported about
    them. -/
structure ReadByPlace (lines : List Token) (eof : Span) (flagAmbiguity : Bool) (d : Description)
    (reports : List Diagnostic) : Prop where
  accepting_eq : d.accepting = wordsAt lines 0
  start_eq : d.start = (wordsAt lines 1).head?
  /-- The start is absent exactly if its line is. -/
  start_eq_none_iff : d.start = none ↔ lines[1]? = none
  /-- The third line lists states unless it lists the transitions. -/
  others_eq : d.others = if transitionPlace lines = 2 then [] else wordsAt lines 2
  /-- The transitions are the words of three characters of their line. -/
  transitions : List.Forall₂ Transition.SplitFrom
    ((wordsAt lines (transitionPlace lines)).filter (·.value.length == 3)) d.transitions
  /-- The test strings are the lines behind the transitions, as they are. -/
  tests_eq : d.tests = lines.drop (transitionPlace lines + 1)
  /-- The reports are about further words on the line of the start, about a line that is missing,
      about a line that could have been meant otherwise, and about words of another length on the
      line of transitions. -/
  reports_eq : reports =
    ((wordsAt lines 1).tail.map fun word => .warning .extraStartTokens
      ("unexpected " ++ Text.quoteString word.value ++ ", the start state is a single name")
      word.span) ++
    (missingLines eof lines ++ (ambiguities flagAmbiguity lines ++
    ((wordsAt lines (transitionPlace lines)).filter (·.value.length != 3)).map fun word =>
      (Diagnostic.warning .malformedTransitionToken
        ("malformed transition " ++ Text.quoteString word.value ++ ", skipped")
        word.span).withHelp "transitions are written as <from><symbol><to>"))
  /-- Nothing is reported behind a line that is missing. -/
  missing_last : ∀ report ∈ missingLines eof lines, reports.getLast? = some report

/-! ## Main result -/

/-- A source whose lines are read by their places, because that is asked for or because the choice
    is left open and the first line is not the marker, means what `ReadByPlace` says. -/
theorem parse_by_place {source : String} {options : Options}
    (h : options.layout = .legacy ∨
      options.layout = .auto ∧ (Text.lines source).head?.map (·.value) ≠ some "%dfa") :
    ReadByPlace (Text.lines source) (endOfSource source) options.flagAmbiguity
      (parse source options).1 (parse source options).2 := by
  have hlegacy : ¬options.layout.isSectioned (Text.lines source) = true := by
    rw [isSectioned_eq_true_iff]
    rcases h with h | ⟨h, hfirst⟩
    · simp [h]
    · rintro (hsectioned | ⟨-, hmarker⟩)
      · exact nomatch h.symm.trans hsectioned
      · exact hfirst hmarker
  have hread : parse source options = _ :=
    (if_neg hlegacy).trans (readLegacy_eq options.flagAmbiguity (endOfSource source) _)
  rw [hread]
  refine ⟨rfl, rfl, head?_wordsAt_eq_none_iff, rfl, forall₂_splitFrom _, rfl, ?_, ?_⟩
  · simp only [malformedTransitions, isNone_compact?]
    rfl
  · -- behind a missing line both other kinds of reports are empty
    intro report hreport
    obtain ⟨hambiguities, hwords⟩ := nothing_behind_missingLines
      (List.ne_nil_of_mem hreport) options.flagAmbiguity
    have hmissing : missingLines (endOfSource source) (Text.lines source) = [report] := by
      simp only [missingLines] at hreport ⊢
      split at hreport
      · next hcond => rw [if_pos hcond, List.mem_singleton.mp hreport]
      · exact absurd hreport List.not_mem_nil
    dsimp only
    rw [hambiguities, hwords, hmissing]
    exact List.getLast?_concat

/-- A source with a word too many on the line of the start, whose third line lists the transitions
    although one of its words is too short, and with a carriage return and a blank line. -/
theorem parse_by_place_sample :
    let source := "1\n0 2\n 0a1 q7\x0d\n\naa"
    (Text.lines source).head?.map (·.value) ≠ some "%dfa" ∧
      ReadByPlace (Text.lines source) (endOfSource source) true (parse source {}).1
        (parse source {}).2 ∧
      (parse source {}).2.map (·.note.issue?) =
        [some .extraStartTokens, some .ambiguousLayout, some .malformedTransitionToken] := by
  intro source
  have hfirst : (Text.lines source).head?.map (·.value) ≠ some "%dfa" := by decide
  have hissues : (parse source {}).2.map (·.note.issue?) =
      [some .extraStartTokens, some .ambiguousLayout, some .malformedTransitionToken] := by
    decide
  exact ⟨hfirst, @parse_by_place source {} (.inr ⟨rfl, hfirst⟩), hissues⟩

end Description

end Acceptor
