import Acceptor.Proofs.Automaton.ExtendedStep
import Acceptor.Proofs.Description.Reports
import Acceptor.Proofs.Text.Places

/-!
# The start state

A description has a start state if its source says which one: in the legacy layout by a second line,
in the sectioned layout by the last start section in front of the tests, unless that names none.
Compiling binds it, and since it is the first name it has the first id and is never the one that
there is no room for.  If the source does not say what the start is, an error is reported.

* `start_parse`                   where the start is read
* `start_compile_of_some`         it becomes the first state
* `exists_error_load`             a start that is not given is reported
* `issue?_ne_of_error_mem_load`   it is never reported as unknown
-/

namespace Acceptor

namespace Description

/-- The word that says what the start state is: the first one of the second line, or the first one
    of the last start section in front of the tests. -/
def startWord? (source : String) (options : Options) : Option Token :=
  let lines := Text.lines source
  if options.layout.isSectioned lines then
    (lastWords .start (headerLines (sectionedBody lines))).head?
  else lines[1]?.bind (·.words.head?)

/-- The source does not say what the start state is: there is no second line, or the last start
    section in front of the tests, if there is one at all, has no word. -/
def LacksStart (source : String) (options : Options) : Prop :=
  let lines := Text.lines source
  if options.layout.isSectioned lines then
    ∀ value, (valuesOf .start (headerLines (sectionedBody lines))).getLast? = some value →
      value.words = []
  else lines.length < 2

/-! ## Reading -/

theorem start_readLegacy (flagAmbiguity : Bool) (eof : Span) (lines : List Token) :
    (readLegacy flagAmbiguity eof lines).1.start = lines[1]?.bind (·.words.head?) := by
  match lines with
  | [] => rfl
  | [accepting] => rfl
  | accepting :: start :: rest =>
    simp only [readLegacy]
    cases rest with
    | nil => rfl
    | cons third rest =>
      dsimp only
      split
      · rfl
      · cases rest <;> rfl

theorem start_readSectioned (lines : List Token) :
    (readSectioned lines).1.start =
      (lastWords .start (headerLines (sectionedBody lines))).head? :=
  congrArg Description.start (set_lastWords_readSectioned lines .start).symm

/-- The start of a description is what its source says. -/
theorem start_parse (source : String) (options : Options) :
    (parse source options).1.start = startWord? source options := by
  simp only [parse, startWord?]
  split
  · exact start_readSectioned _
  · exact start_readLegacy _ _ _

theorem startWord?_eq_none_iff {source : String} {options : Options} :
    startWord? source options = none ↔ LacksStart source options := by
  simp only [startWord?, LacksStart]
  split
  · rw [List.head?_eq_none_iff]
    simp only [lastWords]
    cases (valuesOf .start (headerLines (sectionedBody (Text.lines source)))).getLast? with
    | none => simp
    | some value => simp
  · -- a line is never without a word
    have hword (l : Token) (hl : l ∈ Text.lines source) : l.words ≠ [] :=
      (Text.placed_of_mem_lines hl).2.words_ne_nil
    match hlines : Text.lines source, hword with
    | [], _ => simp
    | [accepting], _ => simp
    | accepting :: start :: rest, hword =>
      have hstart : start.words ≠ [] := hword start (by simp)
      simp [hstart]

theorem exists_error_readLegacy (flagAmbiguity : Bool) (eof : Span) {lines : List Token}
    (h : lines.length < 2) :
    ∃ d ∈ (readLegacy flagAmbiguity eof lines).2, d.note.level = .error := by
  match lines, h with
  | [], _ => exact ⟨_, List.mem_singleton_self _, rfl⟩
  | [accepting], _ => exact ⟨_, List.mem_singleton_self _, rfl⟩

theorem exists_error_readSectioned {lines : List Token}
    (h : ∀ value, (valuesOf .start (headerLines (sectionedBody lines))).getLast? = some value →
      value.words = []) :
    ∃ d ∈ (readSectioned lines).2, d.note.level = .error := by
  rw [readSectioned_snd]
  cases hlast : (valuesOf .start (headerLines (sectionedBody lines))).getLast? with
  | none =>
    rw [if_pos (List.getLast?_eq_none_iff.mp hlast)]
    exact ⟨missingStart, by simp, rfl⟩
  | some value =>
    -- the last start section reports that it is empty
    obtain ⟨line, hline, key, hof⟩ := mem_valuesOf.mp (List.mem_of_getLast? hlast)
    have hempty : emptyStart line ∈ problems .start line value.words := by
      rw [h value hlast]
      exact List.mem_singleton_self _
    exact ⟨emptyStart line,
      List.mem_append_left _ (problems_subset_sectionReports [] hline hof hempty), rfl⟩

/-- If the source does not say what the start state is, that is reported as an error. -/
theorem exists_error_parse {source : String} {options : Options}
    (h : LacksStart source options) :
    ∃ d ∈ (parse source options).2, d.note.level = .error := by
  simp only [LacksStart] at h
  simp only [parse]
  split at h
  · next hsectioned =>
    rw [if_pos hsectioned]
    exact exists_error_readSectioned h
  · next hlegacy =>
    rw [if_neg hlegacy]
    exact exists_error_readLegacy _ _ h

end Description

/-! ## Compiling -/

/-- A start that is the first name has the first id. -/
theorem Represents.start_eq_of_head? {a : Automaton} {r : Roster} (h : Represents a r)
    {name : String} (hstart : r.start = some name) (hhead : r.names.head? = some name) :
    ∃ id s, a.start = some id ∧ id.index = 0 ∧ a.get? id = some s ∧ s.name = name := by
  have hmem : name ∈ r.names := r.start_mem hstart
  have hfirst : r.idOf? name = some ⟨0, by decide⟩ :=
    Roster.idOf?_eq_some_iff.mpr (by rw [← List.head?_eq_getElem?]; exact hhead)
  obtain ⟨s, hs, hsp⟩ := h.get?_idOf name hmem
  rw [Roster.idOf?_of_mem hmem, Option.some_inj] at hfirst
  refine ⟨r.idOf name hmem, s, ?_, by rw [hfirst], hs, hsp.name_eq⟩
  rw [h.start_eq, hstart]
  exact Roster.idOf?_of_mem hmem

namespace Description

variable {d : Description}

theorem start_compile_of_none (h : d.start = none) : d.compile.1.start = none := by
  rw [d.represents_compile.start_eq, start_roster, h]
  rfl

/-- The start of a description becomes the first state. -/
theorem start_compile_of_some {name : Token} (h : d.start = some name) :
    ∃ id s, d.compile.1.start = some id ∧ id.index = 0 ∧ d.compile.1.get? id = some s ∧
      s.name = name.value := by
  refine d.represents_compile.start_eq_of_head? ?_ ?_
  · rw [start_roster, h]
    rfl
  · rw [names_roster, registered, List.head?_take, if_neg (by decide)]
    exact head?_distinctNames h

end Description

/-! ## Main result -/

theorem start_load_eq_none_iff (source : String) (options : Options) :
    (load source options).automaton.start = none ↔
      Description.startWord? source options = none := by
  have hparse := Description.start_parse source options
  have hautomaton : (load source options).automaton =
      (Description.parse source options).1.compile.1 := rfl
  rw [hautomaton]
  cases hword : Description.startWord? source options with
  | none => simp [Description.start_compile_of_none (hparse.trans hword)]
  | some name =>
    obtain ⟨id, s, hid, -⟩ := Description.start_compile_of_some (hparse.trans hword)
    simp [hid]

/-- A start that is not given is reported as an error. -/
theorem exists_error_load {source : String} {options : Options}
    (h : Description.LacksStart source options) :
    (∃ d ∈ (load source options).log.entries, d.note.level = .error) ∧
      (load source options).log.hasError = true := by
  obtain ⟨d, hd, hlevel⟩ := Description.exists_error_parse h
  have hentry : d ∈ (load source options).log.entries.toList := by
    rw [toList_entries_load]
    exact List.mem_append_left _ hd
  refine ⟨⟨d, Array.mem_toList_iff.mp hentry, hlevel⟩, ?_⟩
  rw [hasError_load]
  exact List.any_eq_true.mpr ⟨d, hentry, by simp [hlevel]⟩

/-- No state that does not exist is reported as an error. -/
theorem issue?_ne_of_error_mem_load {source : String} {options : Options} {d : Diagnostic}
    (hd : d ∈ (load source options).log.entries) {n : Note} (hn : n ∈ d.notes)
    (hlevel : n.level = .error) : n.issue? ≠ some .unknownStateReference := by
  rw [← Array.mem_toList_iff, toList_entries_load, List.mem_append] at hd
  rcases hd with hd | hd
  · exact ((Description.readingReport_of_mem_parse hd).issue?_ne n hn).1
  · -- names are reported without an issue, and transitions only as warnings
    rcases Description.mem_compile_snd hd with
      ⟨name, -, message, rfl⟩ | ⟨t, -, issue, message, -, rfl⟩
    · obtain rfl := List.mem_singleton.mp hn
      simp [Diagnostic.error]
    · obtain rfl := List.mem_singleton.mp hn
      simp [Diagnostic.warning] at hlevel

/-- Loading leaves the start open exactly if the source does not say what it is, and then that is
    reported as an error and every run fails.  Otherwise the start is the first state and has the
    name that is given for it, however many names there are, and every run has a verdict.  The start
    is never reported as a state that does not exist. -/
theorem load_start (source : String) (options : Options) :
    let loaded := load source options
    (loaded.automaton.start = none ↔ Description.LacksStart source options) ∧
      (loaded.automaton.start = none →
        (∃ d ∈ loaded.log.entries, d.note.level = .error) ∧ loaded.log.hasError = true ∧
          ∀ input, loaded.automaton.run input = .error .missingStart) ∧
      (∀ id, loaded.automaton.start = some id →
        id.index = 0 ∧
          (∃ name s, Description.startWord? source options = some name ∧
            loaded.automaton.get? id = some s ∧ s.name = name.value) ∧
          ∀ input, ∃ accepted, loaded.automaton.run input = .ok accepted) ∧
      ∀ d ∈ loaded.log.entries, ∀ n ∈ d.notes,
        n.level = .error → n.issue? ≠ some .unknownStateReference := by
  intro loaded
  have hnone := start_load_eq_none_iff source options
  refine ⟨hnone.trans Description.startWord?_eq_none_iff, fun hstart => ?_, fun id hid => ?_,
    fun d hd n hn => issue?_ne_of_error_mem_load hd hn⟩
  · obtain ⟨hentry, herror⟩ :=
      exists_error_load (Description.startWord?_eq_none_iff.mp (hnone.mp hstart))
    exact ⟨hentry, herror, fun input => (Automaton.run_eq_error_iff input).mpr hstart⟩
  · obtain ⟨name, hname⟩ : ∃ name, Description.startWord? source options = some name :=
      Option.ne_none_iff_exists'.mp fun h => nomatch hid.symm.trans (hnone.mpr h)
    obtain ⟨id', s, hid', hindex, hs, hsname⟩ :=
      Description.start_compile_of_some ((Description.start_parse source options).trans hname)
    obtain rfl : id' = id := Option.some.inj (hid'.symm.trans hid)
    exact ⟨hindex, ⟨name, s, hname, hs, hsname⟩, fun input =>
      ⟨_, Automaton.run_of_start input hid⟩⟩

end Acceptor
