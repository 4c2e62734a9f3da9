import Acceptor.Load
import Acceptor.Proofs.Description.Compile
import Acceptor.Proofs.Description.LastSection
import Acceptor.Proofs.Diagnostic.Log
import Acceptor.Proofs.Text.OneLine

/-!
# What loading reports

The log of a source holds the reports on reading it and then those on compiling what was read.

Reading reports on lines and on words of lines; `ReadingReport` lists all kinds of reports there
are, so that whatever holds of every kind holds of all that is reported.

Compiling goes through the names of a description and then through its transitions, and every step
reports one thing or nothing.  `Draft.outcomes` lists the steps of such a loop with what each of
them reports.  Binding the start reports nothing, since the start is the first name and there is
always room for it.

* `readingReport_of_mem_parse`      the kinds of reports on reading
* `transitionReport?_eq_none_iff`   which transitions are added without a report
* `compile_snd`                     the reports on compiling
* `mem_compile_snd`                 what they are about
* `toList_entries_load`             the log of a source
-/

namespace Acceptor

namespace Description

/-! ## Reading -/

/-- A line, or the value of a section that stands on one. -/
def IsContent (ls : List Token) (t : Token) : Prop :=
  t ∈ ls ∨ ∃ line ∈ ls, ∃ part key, Header.ofLine line = .known part key t

/-- The kinds of reports on reading the lines `ls` of a source that ends at `eof`. -/
inductive ReadingReport (eof : Span) (ls : List Token) : Diagnostic → Prop
  | missingLine {message : String} (hmessage : Text.OneLine message) {span? : Option Span}
    (h : ∀ span, span? = some span → span = eof) :
    ReadingReport eof ls (missingLine message span?)
  | missingStart : ReadingReport eof ls missingStart
  | emptyStart {line : Token} (hline : line ∈ ls) : ReadingReport eof ls (emptyStart line)
  | extraStartWord {content word : Token} (hcontent : IsContent ls content)
    (hword : word ∈ content.words) {message : String} (hmessage : Text.OneLine message) :
    ReadingReport eof ls (.warning .extraStartTokens message word.span)
  | malformedTransition {form : String} (hform : Text.OneLine form) {content word : Token}
    (hcontent : IsContent ls content) (hword : word ∈ content.words) :
    ReadingReport eof ls (malformedTransition form word)
  | ambiguousLine {line : Token} (hline : line ∈ ls) {message hint : String}
    (hmessage : Text.OneLine message) (hhint : Text.OneLine hint) :
    ReadingReport eof ls ((Diagnostic.warning .ambiguousLayout message line.span).withHelp hint)
  | malformedSection {line : Token} (hline : line ∈ ls) :
    ReadingReport eof ls (malformedSection line)
  | unknownSection {line key : Token} (hline : line ∈ ls)
    (hof : Header.ofLine line = .unknown key) : ReadingReport eof ls (unknownSection key)
  | duplicateSection {line key value : Token} {part : Section} (hline : line ∈ ls)
    (hof : Header.ofLine line = .known part key value) :
    ReadingReport eof ls (duplicateSection key)

namespace ReadingReport

variable {eof : Span} {ls ls' : List Token} {report : Diagnostic}

/-- A report on some lines is one on more lines. -/
theorem mono (hsub : ls ⊆ ls') (h : ReadingReport eof ls report) :
    ReadingReport eof ls' report := by
  have hcontent {t : Token} (ht : IsContent ls t) : IsContent ls' t := by
    rcases ht with ht | ⟨line, hline, hof⟩
    · exact .inl (hsub ht)
    · exact .inr ⟨line, hsub hline, hof⟩
  cases h with
  | missingLine hmessage h => exact .missingLine hmessage h
  | missingStart => exact .missingStart
  | emptyStart hline => exact .emptyStart (hsub hline)
  | extraStartWord hc hword hmessage => exact .extraStartWord (hcontent hc) hword hmessage
  | malformedTransition hform hc hword => exact .malformedTransition hform (hcontent hc) hword
  | ambiguousLine hline hmessage hhint => exact .ambiguousLine (hsub hline) hmessage hhint
  | malformedSection hline => exact .malformedSection (hsub hline)
  | unknownSection hline hof => exact .unknownSection (hsub hline) hof
  | duplicateSection hline hof => exact .duplicateSection (hsub hline) hof

theorem of_mem_extraStartWords {content : Token} (hcontent : IsContent ls content)
    (h : report ∈ extraStartWords content.words) : ReadingReport eof ls report := by
  obtain ⟨word, hword, rfl⟩ := List.mem_map.mp h
  refine .extraStartWord hcontent (List.mem_of_mem_tail hword) ?_
  simp only [Text.oneLine_append]
  exact ⟨⟨by simp [Text.OneLine], Text.oneLine_quoteString _⟩, by simp [Text.OneLine]⟩

theorem of_mem_malformedTransitions {content : Token} (hcontent : IsContent ls content)
    {read? : String → Option Transition} {form : String} (hform : Text.OneLine form)
    (h : report ∈ malformedTransitions read? form content.words) : ReadingReport eof ls report := by
  obtain ⟨word, hword, rfl⟩ := List.mem_map.mp h
  exact .malformedTransition hform hcontent (List.mem_filter.mp hword).1

theorem of_mem_problems {line content : Token} (hline : line ∈ ls)
    (hcontent : IsContent ls content) {part : Section}
    (h : report ∈ problems part line content.words) : ReadingReport eof ls report := by
  cases part with
  | accepting => cases h
  | states => cases h
  | transitions => exact of_mem_malformedTransitions hcontent (by simp [Text.OneLine]) h
  | start =>
    rcases List.mem_append.mp h with hextra | hempty
    · exact of_mem_extraStartWords hcontent hextra
    · split at hempty
      · obtain rfl := List.mem_singleton.mp hempty
        exact .emptyStart hline
      · cases hempty

theorem of_mem_sectionReports {seen : List Section} (h : report ∈ sectionReports seen ls) :
    ReadingReport eof ls report := by
  obtain ⟨line, hline, seen', h⟩ := exists_of_mem_sectionReports h
  cases hof : Header.ofLine line with
  | malformed =>
    rw [hof] at h
    obtain rfl := List.mem_singleton.mp h
    exact .malformedSection hline
  | unknown key =>
    rw [hof] at h
    obtain rfl := List.mem_singleton.mp h
    exact .unknownSection hline hof
  | tests value =>
    rw [hof] at h
    exact nomatch h
  | known part key value =>
    rw [hof] at h
    rcases List.mem_append.mp h with hduplicate | hproblem
    · split at hduplicate
      · obtain rfl := List.mem_singleton.mp hduplicate
        exact .duplicateSection hline hof
      · exact nomatch hduplicate
    · exact of_mem_problems hline (.inr ⟨line, hline, part, key, hof⟩) hproblem

theorem of_mem_ambiguousLine {line : Token} (hline : line ∈ ls)
    (h : report ∈ Description.ambiguousLine line) : ReadingReport eof ls report := by
  simp only [Description.ambiguousLine] at h
  split at h
  · exact nomatch h
  · obtain rfl := List.mem_singleton.mp h
    refine .ambiguousLine hline (by simp [Text.OneLine]) ?_
    simp only [Text.oneLine_append]
    have hmarker : Text.OneLine sectionedMarker := by decide
    exact ⟨⟨⟨Text.oneLine_quoteString _, by simp [Text.OneLine]⟩, hmarker⟩,
      by simp [Text.OneLine]⟩

theorem of_mem_readLegacy {flagAmbiguity : Bool}
    (h : report ∈ (readLegacy flagAmbiguity eof ls).2) : ReadingReport eof ls report := by
  match ls, h with
  | [], h =>
    obtain rfl := List.mem_singleton.mp h
    exact .missingLine (by simp [Text.OneLine]) (by simp)
  | [accepting], h =>
    obtain rfl := List.mem_singleton.mp h
    exact .missingLine (by simp [Text.OneLine]) fun _ hspan => (Option.some.inj hspan).symm
  | accepting :: start :: rest, h =>
    simp only [readLegacy, List.mem_append] at h
    rcases h with hextra | h
    · exact of_mem_extraStartWords (.inl (by simp)) hextra
    · cases rest with
      | nil =>
        obtain rfl := List.mem_singleton.mp h
        exact .missingLine (by simp [Text.OneLine]) fun _ hspan => (Option.some.inj hspan).symm
      | cons third rest =>
        dsimp only at h
        split at h
        · -- the third line holds the transitions
          rcases List.mem_append.mp h with hambiguous | hmalformed
          · split at hambiguous
            · exact of_mem_ambiguousLine (by simp) hambiguous
            · cases hambiguous
          · exact of_mem_malformedTransitions (.inl (by simp)) (by simp [Text.OneLine]) hmalformed
        · cases rest with
          | nil =>
            obtain rfl := List.mem_singleton.mp h
            exact .missingLine (by simp [Text.OneLine]) fun _ hspan => (Option.some.inj hspan).symm
          | cons line rest =>
            exact of_mem_malformedTransitions (.inl (by simp)) (by simp [Text.OneLine]) h

end ReadingReport

/-- All reports on reading are of the listed kinds. -/
theorem readingReport_of_mem_parse {source : String} {options : Options} {report : Diagnostic}
    (h : report ∈ (parse source options).2) :
    ReadingReport (endOfSource source) (Text.lines source) report := by
  simp only [parse] at h
  split at h
  · rw [readSectioned_snd, List.mem_append] at h
    rcases h with h | hmissing
    · exact (ReadingReport.of_mem_sectionReports h).mono (sectionedBody_suffix _).subset
    · split at hmissing
      · obtain rfl := List.mem_singleton.mp hmissing
        exact .missingStart
      · exact nomatch hmissing
  · exact .of_mem_readLegacy h

/-- Problems with states and edges are not found on reading. -/
theorem ReadingReport.issue?_ne {eof : Span} {ls : List Token} {report : Diagnostic}
    (h : ReadingReport eof ls report) :
    ∀ n ∈ report.notes, n.issue? ≠ some .unknownStateReference ∧
      n.issue? ≠ some .transitionRedefined := by
  -- a note of any kind has an issue of its own or none
  cases h <;>
    simp [Diagnostic.notes, Diagnostic.withHelp, Diagnostic.attach, Diagnostic.warning,
      Diagnostic.error, Description.missingLine, Description.missingStart, Description.emptyStart,
      Description.malformedTransition, Description.malformedSection, Description.unknownSection,
      Description.duplicateSection]

namespace Draft

/-! ## Loops -/

section Outcomes

variable {α : Type} {step : Draft → α → Draft} {report? : Automaton → α → Option Diagnostic}

/-- The steps of a loop, each with what it reports if it reports something. -/
def outcomes (step : Draft → α → Draft) (report? : Automaton → α → Option Diagnostic)
    (draft : Draft) : List α → List (α × Option Diagnostic)
  | [] => []
  | x :: xs => (x, report? draft.automaton x) :: outcomes step report? (step draft x) xs

@[simp] theorem map_fst_outcomes (draft : Draft) (xs : List α) :
    (outcomes step report? draft xs).map (·.1) = xs := by
  induction xs generalizing draft with
  | nil => rfl
  | cons x xs ih => simp [outcomes, ih]

theorem exists_report?_of_mem_outcomes {draft : Draft} {xs : List α} {x : α}
    {o : Option Diagnostic} (h : (x, o) ∈ outcomes step report? draft xs) :
    x ∈ xs ∧ ∃ a, o = report? a x := by
  induction xs generalizing draft with
  | nil => exact nomatch h
  | cons y ys ih =>
    rcases List.mem_cons.mp h with h | h
    · obtain ⟨rfl, rfl⟩ := Prod.mk.inj h
      exact ⟨List.mem_cons_self, _, rfl⟩
    · obtain ⟨hx, a, ha⟩ := ih h
      exact ⟨List.mem_cons_of_mem y hx, a, ha⟩

/-- The reports of a loop, where each step adds its own to those found before. -/
theorem toList_found_foldl
    (hstep : ∀ draft x,
      (step draft x).found.toList = draft.found.toList ++ (report? draft.automaton x).toList)
    (xs : List α) (draft : Draft) :
    (xs.foldl step draft).found.toList =
      draft.found.toList ++ (outcomes step report? draft xs).filterMap (·.2) := by
  induction xs generalizing draft with
  | nil => simp [outcomes]
  | cons x xs ih =>
    rw [List.foldl_cons, ih, hstep, outcomes]
    cases report? draft.automaton x <;> simp

end Outcomes

/-! ## Single steps -/

/-- The report about a name that cannot be added. -/
def nameReport? (accepting : Std.ExtTreeSet String) (a : Automaton) (name : Token) :
    Option Diagnostic :=
  match (a.addState name.value (accepting.contains name.value)).1 with
  | .ok _ => none
  | .error e => some (.error none e.message (some name.span))

/-- The report about a transition that cannot be added or replaces an earlier one. -/
def transitionReport? (a : Automaton) (t : Located Transition) : Option Diagnostic :=
  match a.addTransition t.value.source t.value.symbol t.value.target with
  | (.ok none, _) => none
  | (.ok (some previous), b) => some (redefined b t previous)
  | (.error e, _) => some (dropped t e)

theorem toList_found_addName (accepting : Std.ExtTreeSet String) (draft : Draft) (name : Token) :
    (draft.addName accepting name).found.toList =
      draft.found.toList ++ (nameReport? accepting draft.automaton name).toList := by
  simp only [addName, nameReport?]
  split <;> simp_all

theorem toList_found_addTransition (draft : Draft) (t : Located Transition) :
    (draft.addTransition t).found.toList =
      draft.found.toList ++ (transitionReport? draft.automaton t).toList := by
  simp only [addTransition, transitionReport?]
  split <;> simp_all

/-- A name is reported as an error that is no issue of the description. -/
theorem eq_of_nameReport?_eq_some {accepting : Std.ExtTreeSet String} {a : Automaton} {name : Token}
    {report : Diagnostic} (h : nameReport? accepting a name = some report) :
    ∃ message, report = .error none message (some name.span) := by
  simp only [nameReport?] at h
  split at h
  · exact nomatch h
  · exact ⟨_, (Option.some.inj h).symm⟩

/-- A transition is reported as a warning of one of two issues. -/
theorem eq_of_transitionReport?_eq_some {a : Automaton} {t : Located Transition}
    {report : Diagnostic} (h : transitionReport? a t = some report) :
    ∃ issue message, (issue = .unknownStateReference ∨ issue = .transitionRedefined) ∧
      report = .warning issue message t.span := by
  simp only [transitionReport?] at h
  split at h
  · exact nomatch h
  · exact ⟨_, _, .inr rfl, (Option.some.inj h).symm⟩
  · exact ⟨_, _, .inl rfl, (Option.some.inj h).symm⟩

/-- Transitions between registered names that have no edge yet are those without a report. -/
theorem transitionReport?_eq_none_iff {a : Automaton} {r : Roster} (h : Represents a r)
    (t : Located Transition) :
    transitionReport? a t = none ↔ t.value.source ∈ r.names ∧ t.value.target ∈ r.names ∧
      r.edge t.value.source t.value.symbol = none := by
  -- the report only depends on the answer, and the roster gives the same one
  have hanswer := (h.addTransition t.value.source t.value.symbol t.value.target).1
  have hreport : transitionReport? a t = none ↔
      (r.addTransition t.value.source t.value.symbol t.value.target).1 = .ok none := by
    rw [← hanswer]
    simp only [transitionReport?]
    split <;> next hadd => simp [hadd]
  rw [hreport]
  simp only [Roster.addTransition]
  by_cases hsource : t.value.source ∈ r.names
  · by_cases htarget : t.value.target ∈ r.names
    · rw [dif_pos hsource, dif_pos htarget]
      cases hedge : r.edge t.value.source t.value.symbol with
      | none => simp [hsource, htarget]
      | some q => simp [Roster.idOf?_of_mem (r.edge_mem hedge).2]
    · simp [hsource, htarget]
  · simp [hsource]

end Draft

/-! ## Compiling -/

theorem firstOccurrencesFrom_sublist (seen : Std.ExtTreeSet String) (kept : Array Token)
    (names : List Token) :
    ∃ fresh, firstOccurrencesFrom seen kept names = kept.toList ++ fresh ∧
      fresh.Sublist names := by
  induction names generalizing seen kept with
  | nil => exact ⟨[], (List.append_nil _).symm, List.Sublist.refl _⟩
  | cons name names ih =>
    simp only [firstOccurrencesFrom]
    split
    · obtain ⟨fresh, hfresh, hsub⟩ := ih seen kept
      exact ⟨fresh, hfresh, hsub.cons name⟩
    · obtain ⟨fresh, hfresh, hsub⟩ := ih (seen.insert name.value) (kept.push name)
      exact ⟨name :: fresh, by simp [hfresh], hsub.cons_cons name⟩

/-- First occurrences are tokens of the list. -/
theorem firstOccurrences_sublist (names : List Token) :
    (firstOccurrences names).Sublist names := by
  obtain ⟨fresh, hfresh, hsub⟩ := firstOccurrencesFrom_sublist ∅ #[] names
  simp only [firstOccurrences]
  rw [hfresh]
  exact hsub

theorem represents_draft_nil (d : Description) :
    Represents (d.draft []).automaton d.namesRoster := by
  rw [draft_automaton, List.map_nil, List.append_nil]
  exact Represents.empty.after _

theorem represents_draft (d : Description) :
    Represents (d.draft d.transitions).automaton d.edgesRoster := by
  have hdraft : d.draft d.transitions = d.transitions.foldl Draft.addTransition (d.draft []) := rfl
  rw [hdraft, Draft.foldl_automaton Draft.addTransition_automaton]
  exact d.represents_draft_nil.after _

/-- The names in the order in which they are added, each with the report about it. -/
def nameOutcomes (d : Description) : List (Token × Option Diagnostic) :=
  Draft.outcomes (Draft.addName d.acceptingNames) (Draft.nameReport? d.acceptingNames) {}
    (firstOccurrences d.names)

/-- The transitions in their order, each with the report about it. -/
def transitionOutcomes (d : Description) : List (Located Transition × Option Diagnostic) :=
  Draft.outcomes Draft.addTransition Draft.transitionReport? (d.draft []) d.transitions

/-- The names are reported first, then the transitions, and the start is not. -/
theorem compile_snd (d : Description) :
    d.compile.2 = d.nameOutcomes.filterMap (·.2) ++ d.transitionOutcomes.filterMap (·.2) := by
  have hnames : (d.draft []).found.toList = d.nameOutcomes.filterMap (·.2) :=
    (Draft.toList_found_foldl (Draft.toList_found_addName d.acceptingNames) _ _).trans
      (List.nil_append _)
  have hedges : (d.draft d.transitions).found.toList =
      (d.draft []).found.toList ++ d.transitionOutcomes.filterMap (·.2) :=
    Draft.toList_found_foldl Draft.toList_found_addTransition _ _
  rw [compile_eq, ← hnames, ← hedges]
  cases hstart : d.start with
  | none => rfl
  | some name =>
    have hname : name.value ∈ d.edgesRoster.names :=
      d.names_edgesRoster ▸ start_mem_registered hstart
    exact congrArg Array.toList (Draft.found_setStart d.represents_draft hname)

/-- Reports are about names or about transitions, and stand where these do. -/
theorem mem_compile_snd {d : Description} {report : Diagnostic} (h : report ∈ d.compile.2) :
    (∃ name ∈ d.names, ∃ message, report = .error none message (some name.span)) ∨
      ∃ t ∈ d.transitions, ∃ issue message,
        (issue = .unknownStateReference ∨ issue = .transitionRedefined) ∧
          report = .warning issue message t.span := by
  rw [compile_snd, List.mem_append] at h
  rcases h with h | h
  · obtain ⟨⟨name, _⟩, hname, rfl⟩ := List.mem_filterMap.mp h
    obtain ⟨hmem, a, ha⟩ := Draft.exists_report?_of_mem_outcomes hname
    exact .inl ⟨name, (firstOccurrences_sublist d.names).subset hmem,
      Draft.eq_of_nameReport?_eq_some ha.symm⟩
  · obtain ⟨⟨t, _⟩, ht, rfl⟩ := List.mem_filterMap.mp h
    obtain ⟨hmem, a, ha⟩ := Draft.exists_report?_of_mem_outcomes ht
    exact .inr ⟨t, hmem, Draft.eq_of_transitionReport?_eq_some ha.symm⟩

end Description

/-! ## Loading -/

/-- The log of a source holds the reports on reading and then those on compiling. -/
theorem toList_entries_load (source : String) (options : Options) :
    (load source options).log.entries.toList =
      (Description.parse source options).2 ++
        (Description.parse source options).1.compile.2 := by
  simp only [load]
  rw [Log.toList_entries_emitAll, Log.toList_entries_emitAll]
  rfl

/-- Whether there is an error can be told from the reports. -/
theorem hasError_load (source : String) (options : Options) :
    (load source options).log.hasError =
      (load source options).log.entries.toList.any (·.note.level == .error) := by
  rw [toList_entries_load, List.any_append]
  simp only [load]
  rw [Log.hasError_emitAll, Log.hasError_emitAll]
  rfl

end Acceptor
