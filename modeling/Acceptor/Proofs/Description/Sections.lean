import Acceptor.Description.Sectioned
import Acceptor.Proofs.Text.Pieces

/-!
# Lines of the sectioned layout

A line of the sectioned layout is a key, a colon and a value.  If a source has a line in this form,
the line is taken apart at this colon, whatever stands behind it, and the section gets the words of
the value.

* `Header.ofLine_known`            a line that sets a part of the description
* `Header.ofLine_tests`            the line that begins the test strings
* `readSections_known`             reading goes on behind a line that sets a part
-/

namespace Acceptor

/-! ## Headers -/

namespace Header

variable {line : Token} {key : String} {value : List Char}

/-- The two sides of the colon of a line. -/
private theorem cutAt?_of_toList_eq (hline : line.value.toList = key.toList ++ ':' :: value)
    (hkey : Text.IsWord key) (hcolon : ':' ∉ key.toList) :
    ∃ before after : Piece, (Piece.ofToken line).cutAt? ':' = some (before, after) ∧
      before.trim.token.value = key ∧ after.token.value = String.ofList value := by
  have hcut := Text.cutAt?_append_cons hcolon line.span.start value
  rw [← hline] at hcut
  refine ⟨_, _, hcut, ?_, rfl⟩
  -- the key has no blanks that trimming could take away
  show String.ofList (Text.trim key.toList) = key
  rw [Text.trim_of_not_blank hkey.not_blank, String.ofList_toList]

theorem ofLine_known {part : Section} (hline : line.value.toList = key.toList ++ ':' :: value)
    (hkey : Text.IsWord key) (hcolon : ':' ∉ key.toList) (hpart : Section.ofKey? key = some part) :
    ∃ k v : Token, v.value = String.ofList value ∧ ofLine line = .known part k v := by
  obtain ⟨before, after, hcut, hbefore, hafter⟩ := cutAt?_of_toList_eq hline hkey hcolon
  -- the key of the tests stands for no section
  have hne : key ≠ "tests" := by
    intro h
    rw [h] at hpart
    exact nomatch hpart
  refine ⟨before.trim.token, after.token, hafter, ?_⟩
  simp only [ofLine]
  rw [hcut]
  dsimp only
  rw [hbefore, if_neg hkey.ne_empty, if_neg hne, hpart]

theorem ofLine_tests (hline : line.value.toList = "tests".toList ++ ':' :: value) :
    ∃ v : Token, v.value = String.ofList value ∧ ofLine line = .tests v := by
  have hkey : Text.IsWord "tests" := by decide
  obtain ⟨before, after, hcut, hbefore, hafter⟩ := cutAt?_of_toList_eq hline hkey (by decide)
  refine ⟨after.token, hafter, ?_⟩
  simp only [ofLine]
  rw [hcut]
  dsimp only
  rw [hbefore, if_neg (by decide), if_pos rfl]

end Header

/-- The characters of a trimmed line that begins with a key and a colon. -/
theorem toList_trimmed_header {key : String} (hkey : Text.IsWord key) (value : String) :
    (Text.trimmed (key ++ ":" ++ value)).toList =
      key.toList ++ ':' :: Text.trimEnd value.toList := by
  have htext : (key ++ ":" ++ value).toList = key.toList ++ ':' :: value.toList := by
    simp
  simp only [Text.trimmed, Text.trim]
  rw [String.toList_ofList, htext]
  -- the front is the key, which is not blank, and the colon stops the trimming of the back
  have hstart : Text.trimStart (key.toList ++ ':' :: value.toList) =
      key.toList ++ ':' :: value.toList := by
    cases hchars : key.toList with
    | nil => exact absurd (String.toList_eq_nil_iff.mp hchars) hkey.ne_empty
    | cons c cs =>
      exact Text.trimStart_cons_of_not_blank (hkey.not_blank c (hchars ▸ List.mem_cons_self)) _
  rw [hstart, Text.trimEnd_append_cons (by decide)]

/-- The key of a section that is used for writing. -/
def Section.key : Section → String
  | .accepting => "accept"
  | .start => "start"
  | .states => "states"
  | .transitions => "transitions"

theorem Section.isWord_key (part : Section) : Text.IsWord part.key := by
  cases part <;> decide

theorem Section.colon_not_mem_key (part : Section) : ':' ∉ part.key.toList := by
  cases part <;> decide

theorem Section.ofKey?_key (part : Section) : Section.ofKey? part.key = some part := by
  cases part <;> rfl

/-! ## Reading on -/

namespace Description

/-- What was read so far, with a part set to `words`, which stand on `line`. -/
def Progress.assign (p : Progress) (part : Section) (line : Token) (words : List Token) :
    Progress where
  description := p.description.set part words
  seen := part :: p.seen
  found := p.found ++ problems part line words

@[simp] theorem Progress.seen_assign (p : Progress) (part : Section) (line : Token)
    (words : List Token) : (p.assign part line words).seen = part :: p.seen := rfl

/-- A line that sets a part not set before gives it the words of its value. -/
theorem readSections_known {p : Progress} {line : Token} {part : Section} {value : String}
    (hline : line.value = Text.trimmed (part.key ++ ":" ++ value)) (hnew : part ∉ p.seen)
    (rest : List Token) :
    ∃ words : List Token, words.map (·.value) = Text.wordTexts value.toList ∧
      readSections p (line :: rest) = readSections (p.assign part line words) rest := by
  have hchars : line.value.toList = part.key.toList ++ ':' :: Text.trimEnd value.toList := by
    rw [hline, toList_trimmed_header part.isWord_key]
  obtain ⟨k, v, hv, hheader⟩ :=
    Header.ofLine_known hchars part.isWord_key part.colon_not_mem_key part.ofKey?_key
  refine ⟨v.words, ?_, ?_⟩
  · -- what trimming the line took from the value belongs to no word
    simp only [Located.words]
    rw [Text.map_value_words, hv, String.toList_ofList, Text.wordTexts_trimEnd]
  · rw [readSections, hheader]
    dsimp only
    simp only [Progress.set, Progress.assign]
    rw [if_neg hnew]

/-- The line that begins the test strings and has none itself. -/
theorem readSections_tests {p : Progress} {line : Token}
    (hline : line.value = Text.trimmed "tests:") (rest : List Token) :
    readSections p (line :: rest) =
      { p with description := { p.description with tests := rest.map testString } } := by
  have hchars : line.value.toList = "tests".toList ++ ':' :: [] := by
    rw [hline]
    decide
  obtain ⟨v, hv, hheader⟩ := Header.ofLine_tests hchars
  have htests : readTests v rest = rest.map testString := by
    -- nothing stands behind the colon
    have hinline : (Piece.ofToken v).trim.isEmpty = true := by
      show (Text.trim v.value.toList).isEmpty = true
      rw [hv]
      rfl
    unfold readTests
    dsimp only
    rw [if_pos hinline, List.nil_append]
  rw [readSections, hheader]
  dsimp only
  rw [htests]

end Description

end Acceptor
