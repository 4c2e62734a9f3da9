import Mathlib.Data.List.TakeWhile
import Acceptor.Proofs.Description.LastSection
import Acceptor.Proofs.Description.Transition
import Acceptor.Proofs.Text.Places

/-!
# Meaning by key

In the sectioned layout a line means what its key says, up to the line that begins the tests.
`ReadByKey` says what is read from the lines and what is reported about them by looking at the keys:
a part of the description is given by the last line with a key for it, and a line is reported for
what it is itself and for the lines in front of it.

* `Located.key`, `Located.behindColon`   the two sides of a line
* `Header.describes_ofLine`              lines are taken apart at their first colon
* `valuesOf_headerLines`                 the lines that give a part
* `tests_readSections`                   the test strings
* `sectionReports_eq`                    the reports, line by line
* `parse_by_key`                         sources in the sectioned layout
-/

namespace Acceptor

/-! ## Keys -/

namespace Section

/-- The keys that stand for a section. -/
def spellings : Section → List String
  | .accepting => ["accept", "accepting", "final"]
  | .start => ["start", "initial"]
  | .states => ["states"]
  | .transitions => ["transitions", "delta"]

theorem ofKey?_eq_some_iff {key : String} {part : Section} :
    ofKey? key = some part ↔ key ∈ part.spellings := by
  constructor
  · intro h
    unfold ofKey? at h
    split at h <;> first
      | (obtain rfl := Option.some.inj h; decide)
      | exact nomatch h
  · revert key
    cases part <;> simp [spellings, ofKey?]

/-- No key stands for two sections. -/
theorem eq_of_mem_spellings {key : String} {part part' : Section} (h : key ∈ part.spellings)
    (h' : key ∈ part'.spellings) : part = part' :=
  Option.some.inj ((ofKey?_eq_some_iff.mpr h).symm.trans (ofKey?_eq_some_iff.mpr h'))

end Section

/-- Every key that means something. -/
def knownKeys : List String :=
  ["accept", "accepting", "final", "start", "initial", "states", "transitions", "delta", "tests"]

theorem mem_knownKeys {key : String} :
    key ∈ knownKeys ↔ (∃ part : Section, key ∈ part.spellings) ∨ key = "tests" := by
  constructor
  · intro h
    have hall : ∀ key ∈ knownKeys,
        (Section.ofKey? key).isSome = true ∨ key = "tests" := by decide
    rcases hall key h with h | h
    · obtain ⟨part, hpart⟩ := Option.isSome_iff_exists.mp h
      exact .inl ⟨part, Section.ofKey?_eq_some_iff.mp hpart⟩
    · exact .inr h
  · rintro (⟨part, h⟩ | rfl)
    · have hall : ∀ key ∈ part.spellings, key ∈ knownKeys := by cases part <;> decide
      exact hall key h
    · decide

/-! ## The two sides of a line -/

namespace Located

variable {line : Token}

/-- What stands in front of the first colon of a line. -/
def beforeColon (line : Token) : Piece :=
  ⟨line.span.start, line.value.toList.takeWhile (· != ':')⟩

/-- What stands behind the first colon of a line. -/
def behindColon (line : Token) : Piece :=
  ⟨line.beforeColon.stop + 1, (line.value.toList.dropWhile (· != ':')).tail⟩

/-- The key of a line, without the blanks at either end. -/
def key (line : Token) : Token := line.beforeColon.trim.token

/-- The words of the value of a line. -/
def valueWords (line : Token) : List Token := line.behindColon.token.words

/-- The line has no colon, or nothing in front of it. -/
def IsBroken (line : Token) : Prop := ':' ∉ line.value.toList ∨ line.key.value = ""

/-- The line has a key, which is one of these. -/
def HasKey (keys : List String) (line : Token) : Prop := ¬line.IsBroken ∧ line.key.value ∈ keys

/-- The line has a key, which means nothing. -/
def IsUnknown (line : Token) : Prop := ¬line.IsBroken ∧ line.key.value ∉ knownKeys

instance (line : Token) : Decidable line.IsBroken := inferInstanceAs (Decidable (_ ∨ _))

instance (keys : List String) (line : Token) : Decidable (line.HasKey keys) :=
  inferInstanceAs (Decidable (_ ∧ _))

instance (line : Token) : Decidable line.IsUnknown := inferInstanceAs (Decidable (_ ∧ _))

/-- A line with a colon is cut at the first one. -/
theorem cutAt?_colon (line : Token) :
    (Piece.ofToken line).cutAt? ':' =
      if ':' ∈ line.value.toList then some (line.beforeColon, line.behindColon) else none := by
  simp only [Piece.cutAt?, Piece.ofToken, beforeColon, behindColon]
  split
  · next before hspan =>
    -- nothing is left, so all characters are in front of a colon
    rw [List.span_eq_takeWhile_dropWhile] at hspan
    obtain ⟨-, hdrop⟩ := Prod.mk.inj hspan
    have hcolon : ':' ∉ line.value.toList := fun hmem => by
      simpa using List.dropWhile_eq_nil_iff.mp hdrop ':' hmem
    rw [if_neg hcolon]
  · next before d after hspan =>
    obtain ⟨rfl, -, hvalue⟩ := Text.span_bne_eq_iff.mp hspan
    rw [List.span_eq_takeWhile_dropWhile] at hspan
    obtain ⟨htake, hdrop⟩ := Prod.mk.inj hspan
    -- a colon takes one byte, so the value begins one byte behind the key
    rw [if_pos (by simp [hvalue]), htake, hdrop]
    rfl

end Located

/-- What the header of a line says about the line. -/
inductive Header.Describes (line : Token) : Header → Prop
  | malformed : line.IsBroken → Describes line .malformed
  | unknown : line.IsUnknown → Describes line (.unknown line.key)
  | known (part : Section) : line.HasKey part.spellings →
    Describes line (.known part line.key line.behindColon.token)
  | tests : line.HasKey ["tests"] → Describes line (.tests line.behindColon.token)

/-- The key of a line decides what it means. -/
theorem Header.describes_ofLine (line : Token) : Describes line (ofLine line) := by
  simp only [ofLine]
  rw [line.cutAt?_colon]
  by_cases hcolon : ':' ∈ line.value.toList
  · rw [if_pos hcolon]
    dsimp only
    have hkey : line.beforeColon.trim.token = line.key := rfl
    rw [hkey]
    by_cases hempty : line.key.value = ""
    · rw [if_pos hempty]
      exact .malformed (.inr hempty)
    have hwhole : ¬line.IsBroken := by
      rintro (h | h)
      · exact h hcolon
      · exact hempty h
    rw [if_neg hempty]
    by_cases htests : line.key.value = "tests"
    · rw [if_pos htests]
      exact .tests ⟨hwhole, List.mem_singleton.mpr htests⟩
    rw [if_neg htests]
    -- a key that stands for no section and is not the one of the tests is unknown
    cases hpart : Section.ofKey? line.key.value with
    | some part => exact .known part ⟨hwhole, Section.ofKey?_eq_some_iff.mp hpart⟩
    | none =>
      refine .unknown ⟨hwhole, fun hmem => ?_⟩
      rcases mem_knownKeys.mp hmem with ⟨part, h⟩ | h
      · rw [Section.ofKey?_eq_some_iff.mpr h] at hpart
        exact nomatch hpart
      · exact htests h
  · rw [if_neg hcolon]
    exact .malformed (.inl hcolon)

namespace Located

variable {line : Token}

theorem IsBroken.not_hasKey (h : line.IsBroken) (keys : List String) : ¬line.HasKey keys :=
  fun hkey => hkey.1 h

theorem IsUnknown.not_tests (h : line.IsUnknown) : ¬line.HasKey ["tests"] :=
  fun hkey => h.2 (mem_knownKeys.mpr (.inr (List.mem_singleton.mp hkey.2)))

theorem IsUnknown.not_spellings (h : line.IsUnknown) (part : Section) :
    ¬line.HasKey part.spellings :=
  fun hkey => h.2 (mem_knownKeys.mpr (.inl ⟨part, hkey.2⟩))

theorem HasKey.not_unknown {part : Section} (h : line.HasKey part.spellings) : ¬line.IsUnknown :=
  fun hunknown => hunknown.not_spellings part h

theorem HasKey.not_tests {part : Section} (h : line.HasKey part.spellings) :
    ¬line.HasKey ["tests"] := by
  rintro ⟨-, htests⟩
  have hkey := h.2
  rw [List.mem_singleton.mp htests] at hkey
  cases part <;> exact absurd hkey (by decide)

theorem HasKey.spellings_iff {part part' : Section} (h : line.HasKey part.spellings) :
    line.HasKey part'.spellings ↔ part = part' := by
  constructor
  · exact fun h' => Section.eq_of_mem_spellings h.2 h'.2
  · rintro rfl
    exact h

end Located

namespace Header

/-- A line begins the tests or does not, as its key says. -/
theorem tests_cases (line : Token) :
    line.HasKey ["tests"] ∧ ofLine line = .tests line.behindColon.token ∨
      ¬line.HasKey ["tests"] ∧ (ofLine line).isTests = false := by
  have hline := describes_ofLine line
  generalize ofLine line = header at hline
  cases hline with
  | malformed h => exact .inr ⟨h.not_hasKey _, rfl⟩
  | unknown h => exact .inr ⟨h.not_tests, rfl⟩
  | known part h => exact .inr ⟨h.not_tests, rfl⟩
  | tests h => exact .inl ⟨h, rfl⟩

theorem value?_ofLine (part : Section) (line : Token) :
    (ofLine line).value? part =
      if line.HasKey part.spellings then some line.behindColon.token else none := by
  have hline := describes_ofLine line
  generalize ofLine line = header at hline
  cases hline with
  | malformed h => rw [if_neg (h.not_hasKey _)]; rfl
  | unknown h => rw [if_neg (h.not_spellings part)]; rfl
  | known part' h => simp [value?, h.spellings_iff]
  | tests h => rw [if_neg fun hpart => hpart.not_tests h]; rfl

theorem part?_ofLine {part : Section} {line : Token} :
    (ofLine line).part? = some part ↔ line.HasKey part.spellings := by
  rw [part?_eq_some_iff, value?_ofLine]
  split <;> simp_all

end Header

namespace Description

/-! ## Headers and tests -/

/-- The lines up to the one that begins the tests, and this one. -/
def headers (body : List Token) : List Token :=
  (body.takeWhile fun line => ¬line.HasKey ["tests"]) ++
    (body.find? fun line => line.HasKey ["tests"]).toList

/-- The lines behind the one that begins the tests. -/
def testLines (body : List Token) : List Token :=
  (body.dropWhile fun line => ¬line.HasKey ["tests"]).tail

theorem headers_cons (line : Token) (rest : List Token) :
    headers (line :: rest) = if line.HasKey ["tests"] then [line] else line :: headers rest := by
  simp only [headers]
  by_cases h : line.HasKey ["tests"] <;> simp [h]

theorem testLines_cons (line : Token) (rest : List Token) :
    testLines (line :: rest) = if line.HasKey ["tests"] then rest else testLines rest := by
  simp only [testLines]
  by_cases h : line.HasKey ["tests"] <;> simp [h]

/-- The words of the last line with a key for the part; none if there is no such line. -/
def sectionWords (part : Section) (lines : List Token) : List Token :=
  ((lines.filter fun line => line.HasKey part.spellings).getLast?.map Located.valueWords).getD []

/-- The lines that give a part a value are those with a key for it. -/
theorem valuesOf_headerLines (part : Section) (body : List Token) :
    valuesOf part (headerLines body) =
      ((headers body).filter fun line => line.HasKey part.spellings).map (·.behindColon.token) := by
  induction body with
  | nil => rfl
  | cons line rest ih =>
    rw [headers_cons]
    rcases Header.tests_cases line with ⟨htests, hof⟩ | ⟨htests, hof⟩
    · -- the line that begins the tests gives nothing to the part
      have hpart : ¬line.HasKey part.spellings := fun hpart => hpart.not_tests htests
      rw [headerLines_cons_of_tests hof, if_pos htests]
      simp [hpart]
    · rw [headerLines_cons_of_not_tests hof, if_neg htests, valuesOf_cons, Header.value?_ofLine, ih,
        List.filter_cons]
      by_cases hpart : line.HasKey part.spellings <;> simp [hpart]

theorem lastWords_headerLines (part : Section) (body : List Token) :
    lastWords part (headerLines body) = sectionWords part (headers body) := by
  have hwords : Located.words ∘ (fun line : Token => line.behindColon.token) =
      Located.valueWords := by
    funext line
    simp only [Function.comp_apply, Located.valueWords]
  simp only [lastWords, sectionWords]
  rw [valuesOf_headerLines, List.getLast?_map, Option.map_map, hwords]

/-- The test string on the line that begins the tests, unless nothing stands behind the colon. -/
def inlineTest (line : Token) : List Token :=
  if line.behindColon.trim.token.value = "" then [] else [line.behindColon.trim.token]

theorem tests_step (p : Progress) (line : Token) :
    (p.step line).description.tests = p.description.tests := by
  rw [p.description_step]
  cases Header.ofLine line with
  | known part key value => cases part <;> rfl
  | malformed => rfl
  | unknown key => rfl
  | tests value => rfl

theorem readTests_behindColon (line : Token) (rest : List Token) :
    readTests line.behindColon.token rest = (inlineTest line ++ rest).map testString := by
  have hempty : line.behindColon.trim.token.value = "" ↔ line.behindColon.trim.isEmpty = true :=
    String.ofList_eq_empty_iff.trans List.isEmpty_iff.symm
  simp only [readTests, inlineTest]
  rw [Piece.ofToken_token]
  by_cases h : line.behindColon.trim.isEmpty = true
  · rw [if_pos h, if_pos (hempty.mpr h)]
    rfl
  · rw [if_neg h, if_neg (mt hempty.mp h)]
    rfl

theorem tests_readSections {p : Progress} (hp : p.description.tests = []) (body : List Token) :
    (readSections p body).description.tests =
      ((body.find? fun line => line.HasKey ["tests"]).toList.flatMap inlineTest ++
        testLines body).map testString := by
  induction body generalizing p with
  | nil => exact hp
  | cons line rest ih =>
    rw [testLines_cons]
    rcases Header.tests_cases line with ⟨htests, hof⟩ | ⟨htests, hof⟩
    · rw [readSections_cons_tests hof, if_pos htests,
        List.find?_cons_of_pos (by simpa using htests)]
      simp only [Progress.finish]
      rw [readTests_behindColon]
      simp
    · -- no line in front of the tests changes the test strings
      rw [readSections_cons hof, if_neg htests, List.find?_cons_of_neg (by simpa using htests)]
      exact ih ((tests_step p line).trans hp)

/-! ## Reports -/

/-- An earlier line has a key for the same part. -/
def Repeats (earlier : List Token) (line : Token) : Prop :=
  ∃ part : Section, line.HasKey part.spellings ∧ ∃ l ∈ earlier, l.HasKey part.spellings

instance (earlier : List Token) (line : Token) : Decidable (Repeats earlier line) :=
  decidable_of_iff
    (∃ part ∈ [Section.accepting, .start, .states, .transitions],
      line.HasKey part.spellings ∧ ∃ l ∈ earlier, l.HasKey part.spellings)
    (exists_congr fun part => and_iff_right (by cases part <;> decide))

/-- What is said about the words of a line that names the start. -/
def startReports (line : Token) : List Diagnostic :=
  (line.valueWords.tail.map fun word => .warning .extraStartTokens
    ("unexpected " ++ Text.quoteString word.value ++ ", the start state is a single name")
    word.span) ++
  if line.valueWords = [] then
    [.error (some .emptyStart) "start state cannot be empty" (some line.span)]
  else []

/-- What is said about the words of a line that lists transitions. -/
def transitionReports (line : Token) : List Diagnostic :=
  (line.valueWords.filter fun word => ¬Transition.IsWritten word.value).map fun word =>
    (Diagnostic.warning .malformedTransitionToken
      ("malformed transition " ++ Text.quoteString word.value ++ ", skipped")
      word.span).withHelp
      "transitions are written as <from>,<symbol>,<to> or <from><symbol><to>"

/-- What is said about a line that has these in front of it. -/
def lineReports (earlier : List Token) (line : Token) : List Diagnostic :=
  (if line.IsBroken then
    [.error (some .malformedSection) "expected a section of the form \x60key: value\x60"
      (some line.span)]
  else []) ++
  (if line.IsUnknown then
    [.warning .unknownSection ("unknown section " ++ Text.quoteString line.key.value ++
      ", expected 'accept' | 'start' | 'states' | 'transitions' | 'tests'") line.key.span]
  else []) ++
  (if Repeats earlier line then
    [.warning .duplicateSection "section already set, replacing the earlier one" line.key.span]
  else []) ++
  (if line.HasKey Section.start.spellings then startReports line else []) ++
  if line.HasKey Section.transitions.spellings then transitionReports line else []

theorem not_repeats {line : Token} (h : ∀ part : Section, ¬line.HasKey part.spellings)
    (earlier : List Token) : ¬Repeats earlier line :=
  fun ⟨part, hpart, _⟩ => h part hpart

theorem repeats_iff {line : Token} {part : Section} (h : line.HasKey part.spellings)
    (earlier : List Token) :
    Repeats earlier line ↔ ∃ l ∈ earlier, l.HasKey part.spellings := by
  constructor
  · rintro ⟨part', hpart', hearlier⟩
    obtain rfl := h.spellings_iff.mp hpart'
    exact hearlier
  · exact fun hearlier => ⟨part, h, hearlier⟩

theorem problems_eq {part : Section} {line : Token} (h : line.HasKey part.spellings) :
    problems part line line.valueWords =
      (if line.HasKey Section.start.spellings then startReports line else []) ++
        if line.HasKey Section.transitions.spellings then transitionReports line else [] := by
  simp only [h.spellings_iff]
  cases part with
  | accepting => simp [problems]
  | states => simp [problems]
  | start => simp [problems, startReports, extraStartWords, emptyStart]
  | transitions =>
    rw [if_neg (by decide), if_pos rfl, List.nil_append]
    simp only [problems, malformedTransitions, transitionReports]
    simp [malformedTransition, Transition.decide_isWritten]

/-- The reports about a line, where `seen` are the parts for which an earlier line has a key. -/
theorem reports_ofLine {seen : List Section} {earlier : List Token}
    (hseen : ∀ part, part ∈ seen ↔ ∃ l ∈ earlier, l.HasKey part.spellings) (line : Token) :
    (Header.ofLine line).reports seen line = lineReports earlier line := by
  have hline := Header.describes_ofLine line
  generalize Header.ofLine line = header at hline
  simp only [lineReports]
  -- what the line is rules out all reports but those for it
  cases hline with
  | malformed h =>
    have hsections := fun part : Section => h.not_hasKey part.spellings
    rw [if_pos h, if_neg fun hunknown => hunknown.1 h, if_neg (not_repeats hsections earlier),
      if_neg (hsections _), if_neg (hsections _)]
    rfl
  | unknown h =>
    rw [if_neg h.1, if_pos h, if_neg (not_repeats h.not_spellings earlier),
      if_neg (h.not_spellings _), if_neg (h.not_spellings _)]
    rfl
  | known part h =>
    rw [if_neg h.1, if_neg h.not_unknown, List.append_assoc, ← problems_eq h]
    simp only [Header.reports, hseen part, repeats_iff h earlier]
    rfl
  | tests h =>
    have hsections := fun (part : Section) (hpart : line.HasKey part.spellings) => hpart.not_tests h
    rw [if_neg h.1, if_neg fun hunknown => hunknown.not_tests h,
      if_neg (not_repeats hsections earlier), if_neg (hsections _), if_neg (hsections _)]
    rfl

/-- The reports about sections, line by line. -/
theorem sectionReports_eq {seen : List Section} {earlier : List Token}
    (hseen : ∀ part, part ∈ seen ↔ ∃ l ∈ earlier, l.HasKey part.spellings) (body : List Token) :
    sectionReports seen body =
      ((headers body).mapIdx fun i line =>
        lineReports (earlier ++ (headers body).take i) line).flatten := by
  -- what was seen and the earlier lines grow together
  induction body generalizing seen earlier with
  | nil => rfl
  | cons line rest ih =>
    have hreports := reports_ofLine hseen line
    rw [headers_cons]
    rcases Header.tests_cases line with ⟨htests, hof⟩ | ⟨htests, hof⟩
    · -- nothing is said about the line that begins the tests
      rw [hof] at hreports
      rw [sectionReports_cons_tests hof, if_pos htests]
      simpa [Header.reports] using hreports
    · -- for the lines behind it, this line is an earlier one
      have hsee : ∀ part, part ∈ (Header.ofLine line).see seen ↔
          ∃ l ∈ earlier ++ [line], l.HasKey part.spellings := by
        intro part
        rw [Header.mem_see, Header.part?_ofLine, hseen]
        simp [or_and_right, exists_or, or_comm]
      rw [sectionReports_cons hof, hreports, if_neg htests, List.mapIdx_cons, List.flatten_cons,
        List.take_zero, List.append_nil, ih hsee]
      simp only [List.take_succ_cons, List.append_assoc, List.singleton_append]

/-! ## Reading -/

/-- What lines mean by their keys, and what is reported about them. -/
structure ReadByKey (body : List Token) (d : Description) (reports : List Diagnostic) : Prop where
  accepting_eq : d.accepting = sectionWords .accepting (headers body)
  start_eq : d.start = (sectionWords .start (headers body)).head?
  others_eq : d.others = sectionWords .states (headers body)
  /-- The transitions are those words of their last line that say one. -/
  transitions : List.Forall₂ (fun word t => t.value.WrittenAs word.value ∧ t.span = word.span)
    ((sectionWords .transitions (headers body)).filter fun word => Transition.IsWritten word.value)
    d.transitions
  /-- The test strings are what stands behind the colon and the lines that follow; the spellings of
      the empty string stand for it. -/
  tests_eq : d.tests =
    ((body.find? fun line => line.HasKey ["tests"]).toList.flatMap inlineTest ++
      testLines body).map fun line =>
        if line.value ∈ ["~", "epsilon", "ε", "ϵ", "ɛ"] then { line with value := "" } else line
  /-- The reports are those about each line, where the lines in front of it matter only for whether
      it repeats one of them, and at the end one about a start that no line names. -/
  reports_eq : reports =
    ((headers body).mapIdx fun i line => lineReports ((headers body).take i) line).flatten ++
    if ∃ line ∈ headers body, line.HasKey Section.start.spellings then []
    else [(Diagnostic.error (some .missingLine) "start state never defined" none).withHelp
      "add: start: <state>"]

theorem readByKey_readSectioned (lines : List Token) :
    ReadByKey (sectionedBody lines) (readSectioned lines).1 (readSectioned lines).2 := by
  have hpart := fun part : Section => set_lastWords_readSectioned lines part
  simp only [lastWords_headerLines] at hpart
  refine ⟨(congrArg accepting (hpart .accepting)).symm, (congrArg start (hpart .start)).symm,
    (congrArg others (hpart .states)).symm, ?_, ?_, ?_⟩
  · -- words that are read as transitions are those that say one
    have htransitions := (congrArg transitions (hpart .transitions)).symm
    rw [htransitions]
    simp only [Transition.decide_isWritten]
    refine (forall₂_readTransitions Transition.read? _).imp fun word t ⟨hread, hspan⟩ => ?_
    exact ⟨Transition.read?_eq_some_iff.mp hread, hspan⟩
  · rw [readSectioned_eq]
    exact tests_readSections rfl (sectionedBody lines)
  · -- the start was given exactly if some header has a key for it
    have hstart : valuesOf .start (headerLines (sectionedBody lines)) = [] ↔
        ¬∃ line ∈ headers (sectionedBody lines), line.HasKey Section.start.spellings := by
      rw [valuesOf_headerLines, List.map_eq_nil_iff, List.filter_eq_nil_iff]
      simp
    rw [readSectioned_snd, @sectionReports_eq [] [] (by simp)]
    simp only [List.nil_append, hstart, ite_not]
    rfl

/-! ## Main result -/

/-- A source whose lines are read by their keys, because that is asked for or because the choice is
    left open and the first line is the marker, means what `ReadByKey` says of the lines behind the
    marker. -/
theorem parse_by_key {source : String} {options : Options}
    (h : options.layout = .sectioned ∨
      options.layout = .auto ∧ (Text.lines source).head?.map (·.value) = some "%dfa") :
    ReadByKey (sectionedBody (Text.lines source)) (parse source options).1
      (parse source options).2 := by
  have hread : parse source options = readSectioned (Text.lines source) :=
    if_pos (isSectioned_eq_true_iff.mpr h)
  rw [hread]
  exact readByKey_readSectioned (Text.lines source)

/-- A source with all that can be reported: lines without a key and of unknown meaning, a second
    line for the start, with a word too many, and one without any word, and a word that is not a
    transition. -/
theorem parse_by_key_sample :
    let source := "%dfa\nstart: p\n: q\nfinals: q\ninitial : 0 q\nstart:\n" ++
      "delta: 0a1 ab\r\ntests: ~\nstart: aa"
    (Text.lines source).head?.map (·.value) = some "%dfa" ∧
      ReadByKey (sectionedBody (Text.lines source)) (parse source {}).1 (parse source {}).2 ∧
      (parse source {}).1.tests.map (·.value) = ["", "start: aa"] ∧
      (parse source {}).2.map (·.note.issue?) =
        [some .malformedSection, some .unknownSection, some .duplicateSection,
          some .extraStartTokens, some .duplicateSection, some .emptyStart,
          some .malformedTransitionToken] := by
  intro source
  have hfirst : (Text.lines source).head?.map (·.value) = some "%dfa" := by decide
  exact ⟨hfirst, @parse_by_key source {} (.inr ⟨rfl, hfirst⟩), by decide, by decide⟩

end Description

end Acceptor
