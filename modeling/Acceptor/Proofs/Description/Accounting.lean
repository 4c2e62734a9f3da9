import Acceptor.Proofs.Description.Faithful
import Acceptor.Proofs.Description.TransitionList

/-!
# Every transition is accounted for

A word of the list of transitions that does not bring an edge is reported, and the report is an
entry of the log that stands at the word.  No other entry of this sort stands there: sections that
were replaced had their words on other lines.  So the log says of every single word whether it
became an edge, and the words can be counted.

* `reports_perm`         the reports on reading and on compiling, word by word
* `exists_filter_load`   the entries about transitions
* `reportsOn_perm`       those that stand at words of the list
-/

namespace Acceptor

/-! ## Reports on words -/

/-- Whether a report says that a word of a list of transitions does not bring a new edge. -/
def Diagnostic.isAboutTransition (d : Diagnostic) : Bool :=
  d.note.issue? ∈ [some .malformedTransitionToken, some .unknownStateReference,
    some .transitionRedefined]

namespace Description

variable {read? : String → Option Transition} {form : String} {draft : Draft}

/-- A report in a tally stands at its word. -/
theorem span?_of_mem_wordTally {words : List Token} {word : Token} {report : Diagnostic}
    (h : (word, some report) ∈ wordTally read? form draft words) :
    report.note.span? = some word.span ∧ report.isAboutTransition = true := by
  obtain ⟨-, a, hreport⟩ := Draft.exists_report?_of_mem_outcomes h
  simp only [Draft.wordReport?] at hreport
  split at hreport
  · obtain rfl := Option.some.inj hreport
    exact ⟨rfl, rfl⟩
  · obtain ⟨issue, message, hissue, rfl⟩ := Draft.eq_of_transitionReport?_eq_some hreport.symm
    rcases hissue with rfl | rfl <;> exact ⟨rfl, rfl⟩

/-- What is reported on reading words and on adding the transitions among them is what is reported
    word by word. -/
theorem reports_perm (words : List Token) :
    (malformedTransitions read? form words ++
        (Draft.outcomes Draft.addTransition Draft.transitionReport? draft
          (readTransitions read? words)).filterMap (·.2)).Perm
      ((wordTally read? form draft words).filterMap (·.2)) := by
  induction words generalizing draft with
  | nil => exact .refl _
  | cons word words ih =>
    cases hread : read? word.value with
    | none =>
      rw [wordTally_cons_of_none hread, readTransitions_cons_of_none hread]
      simpa [malformedTransitions, hread] using ih
    | some t =>
      rw [wordTally_cons_of_some hread, readTransitions_cons_of_some hread, Draft.outcomes]
      cases hreport : Draft.transitionReport? draft.automaton ⟨t, word.span⟩ with
      | none => simpa [malformedTransitions, hread] using ih
      | some report =>
        simpa [malformedTransitions, hread] using
          List.perm_middle.trans (List.Perm.cons report ih)

theorem filter_malformedTransitions (read? : String → Option Transition) (form : String)
    (words : List Token) :
    (malformedTransitions read? form words).filter (·.isAboutTransition) =
      malformedTransitions read? form words := by
  refine List.filter_eq_self.mpr fun report hreport => ?_
  obtain ⟨word, -, rfl⟩ := List.mem_map.mp hreport
  rfl

theorem filter_extraStartWords (words : List Token) :
    (extraStartWords words).filter (·.isAboutTransition) = [] := by
  refine List.filter_eq_nil_iff.mpr fun report hreport => ?_
  obtain ⟨word, -, rfl⟩ := List.mem_map.mp hreport
  exact Bool.false_ne_true

theorem filter_ambiguousLine (line : Token) :
    (ambiguousLine line).filter (·.isAboutTransition) = [] := by
  simp only [ambiguousLine]
  split <;> rfl

/-- Reports on compiling that are about transitions are those of the loop over the transitions. -/
theorem filter_compile (d : Description) :
    d.compile.2.filter (·.isAboutTransition) = d.transitionOutcomes.filterMap (·.2) := by
  have hnames : (d.nameOutcomes.filterMap (·.2)).filter (·.isAboutTransition) = [] := by
    refine List.filter_eq_nil_iff.mpr fun report hreport => ?_
    obtain ⟨⟨name, _⟩, hname, rfl⟩ := List.mem_filterMap.mp hreport
    obtain ⟨-, a, ha⟩ := Draft.exists_report?_of_mem_outcomes hname
    obtain ⟨message, rfl⟩ := Draft.eq_of_nameReport?_eq_some ha.symm
    exact Bool.false_ne_true
  have htransitions : (d.transitionOutcomes.filterMap (·.2)).filter (·.isAboutTransition) =
      d.transitionOutcomes.filterMap (·.2) := by
    refine List.filter_eq_self.mpr fun report hreport => ?_
    obtain ⟨⟨t, _⟩, ht, rfl⟩ := List.mem_filterMap.mp hreport
    obtain ⟨-, a, ha⟩ := Draft.exists_report?_of_mem_outcomes ht
    obtain ⟨issue, message, hissue, rfl⟩ := Draft.eq_of_transitionReport?_eq_some ha.symm
    rcases hissue with rfl | rfl <;> rfl
  rw [compile_snd, List.filter_append, hnames, htransitions, List.nil_append]

theorem filter_readLegacy (flagAmbiguity : Bool) (eof : Span) (lines : List Token) :
    (readLegacy flagAmbiguity eof lines).2.filter (·.isAboutTransition) =
      malformedTransitions Transition.compact? "<from><symbol><to>"
        (legacyTransitionWords lines) := by
  match lines with
  | [] => rfl
  | [accepting] => rfl
  | [accepting, start] =>
    simp only [readLegacy, List.filter_append, filter_extraStartWords]
    rfl
  | accepting :: start :: third :: rest =>
    simp only [readLegacy, legacyTransitionWords]
    split
    · simp only [List.filter_append, filter_extraStartWords, readLegacyBody,
        filter_malformedTransitions]
      cases flagAmbiguity <;> simp [filter_ambiguousLine]
    · cases rest with
      | nil =>
        simp only [List.filter_append, filter_extraStartWords]
        rfl
      | cons line rest =>
        simp [List.filter_append, filter_extraStartWords, readLegacyBody,
          filter_malformedTransitions]

theorem filter_problems (part : Section) (line : Token) (words : List Token) :
    (problems part line words).filter (·.isAboutTransition) =
      if part = .transitions then
        malformedTransitions Transition.read? "<from>,<symbol>,<to> or <from><symbol><to>" words
      else [] := by
  cases part with
  | accepting => rfl
  | states => rfl
  | transitions => exact filter_malformedTransitions _ _ _
  | start =>
    simp only [problems, List.filter_append, filter_extraStartWords]
    split <;> rfl

/-- Every section of transitions reports on its words, also if it is replaced. -/
theorem filter_sectionReports (seen : List Section) (body : List Token) :
    (sectionReports seen body).filter (·.isAboutTransition) =
      (valuesOf .transitions (headerLines body)).flatMap fun value =>
        malformedTransitions Transition.read? "<from>,<symbol>,<to> or <from><symbol><to>"
          value.words := by
  induction body generalizing seen with
  | nil => rfl
  | cons line rest ih =>
    have hmalformed (l : Token) : (malformedSection l).isAboutTransition = false := rfl
    have hunknown (key : Token) : (unknownSection key).isAboutTransition = false := rfl
    have hduplicate (key : Token) : (duplicateSection key).isAboutTransition = false := rfl
    rw [sectionReports, headerLines_cons]
    cases hof : Header.ofLine line with
    | malformed => simp [Header.isTests, hof, Header.value?, hmalformed, ih]
    | unknown key => simp [Header.isTests, hof, Header.value?, hunknown, ih]
    | tests value => simp [Header.isTests]
    | known part key value =>
      have hreplaced : (if part ∈ seen then [duplicateSection key] else []).filter
          (·.isAboutTransition) = [] := by
        split <;> simp [hduplicate]
      rw [List.filter_append, List.filter_append, hreplaced, filter_problems, ih]
      by_cases hpart : part = .transitions
      · simp [hpart, Header.isTests, hof, Header.value?]
      · simp [hpart, Header.isTests, hof, Header.value?]

/-! ## Replaced sections -/

variable {source : String}

/-- Values of sections stand in the source one after the other, like their lines. -/
theorem pairwise_valuesOf (part : Section) {ls : List Token} (h : Text.Page source ls) :
    (valuesOf part ls).Pairwise fun u v =>
      ∀ w ∈ u.words, ∀ w' ∈ v.words, w.span ≠ w'.span := by
  -- a word of a value lies between the ends of the line
  have hbounds {line value word : Token} (hline : line ∈ ls)
      (hvalue : (Header.ofLine line).value? part = some value) (hword : word ∈ value.words) :
      line.span.start ≤ word.span.start ∧ word.span.start < word.span.stop ∧
        word.span.stop ≤ line.span.stop := by
    have hheader := h.header hline
    cases hof : Header.ofLine line with
    | malformed => simp [hof, Header.value?] at hvalue
    | unknown key => simp [hof, Header.value?] at hvalue
    | tests value => simp [hof, Header.value?] at hvalue
    | known part' key value' =>
      obtain ⟨-, rfl⟩ : part' = part ∧ value' = value := by
        simpa [hof, Header.value?] using hvalue
      rw [hof] at hheader
      have hin : word.PlacedIn (.ofToken line) :=
        (Text.placed_of_mem_words hword).1.trans hheader.2
      refine ⟨hin.start_le, ?_, (h.placed line hline).stop_ofToken ▸ hin.stop_le⟩
      exact (Text.ascending_words value').start_lt_stop _ (List.mem_map_of_mem hword)
  have hpairwise := List.pairwise_map.mp h.ascending.pairwise
  refine List.pairwise_filterMap.mpr (hpairwise.imp_of_mem fun {l l'} hl hl' hlt u hu v hv => ?_)
  intro w hw w' hw' heq
  have hwl := hbounds hl hu hw
  have hwl' := hbounds hl' hv hw'
  rw [heq] at hwl
  omega

/-- The reports on reading that are about transitions: those about the words of the list, and
    those about words of sections that were replaced, which stand elsewhere. -/
theorem exists_filter_parse (source : String) (options : Options) :
    ∃ replaced, (parse source options).2.filter (·.isAboutTransition) =
        replaced ++ malformedTransitions (transitionReader source options)
          (transitionForm source options) (transitionWords source options) ∧
      ∀ report ∈ replaced, ∀ word ∈ transitionWords source options,
        report.note.span? ≠ some word.span := by
  simp only [parse, transitionReader, transitionForm, transitionWords]
  split
  · have hsub : headerLines (sectionedBody (Text.lines source)) <:+: Text.lines source :=
      (List.takeWhile_prefix _).isInfix.trans (sectionedBody_suffix _).isInfix
    have hpairwise := pairwise_valuesOf .transitions ((Text.Page.lines source).sublist hsub.sublist)
    have hmissing : (if valuesOf .start (headerLines (sectionedBody (Text.lines source))) = []
        then [missingStart] else []).filter (·.isAboutTransition) = [] := by
      split <;> rfl
    rw [readSectioned_snd, List.filter_append, filter_sectionReports, hmissing, List.append_nil]
    simp only [lastWords]
    rcases List.eq_nil_or_concat
      (valuesOf .transitions (headerLines (sectionedBody (Text.lines source)))) with
      hnil | ⟨earlier, last, hvalues⟩
    · rw [hnil]
      exact ⟨[], rfl, by simp⟩
    · rw [hvalues, List.concat_eq_append] at hpairwise ⊢
      refine ⟨earlier.flatMap fun value => malformedTransitions Transition.read?
        "<from>,<symbol>,<to> or <from><symbol><to>" value.words, by simp, ?_⟩
      intro report hreport word hword
      obtain ⟨value, hvalue, hreport⟩ := List.mem_flatMap.mp hreport
      obtain ⟨word', hword', rfl⟩ := List.mem_map.mp hreport
      have hother := (List.pairwise_append.mp hpairwise).2.2 value hvalue last (by simp)
        word' (List.mem_filter.mp hword').1 word (by simpa using hword)
      exact fun heq => hother (Option.some.inj heq)
  · exact ⟨[], filter_readLegacy _ _ _, by simp⟩

/-! ## Counting -/

/-- If the words of a tally have different places, the reports that stand at a word are its own. -/
theorem filter_reports_eq {tally : List (Token × Option Diagnostic)}
    (hspan : ∀ word report, (word, some report) ∈ tally → report.note.span? = some word.span)
    (hnodup : (tally.map (·.1.span)).Nodup) {word : Token} {report? : Option Diagnostic}
    (h : (word, report?) ∈ tally) :
    (tally.filterMap (·.2)).filter (·.note.span? == some word.span) = report?.toList := by
  induction tally with
  | nil => exact nomatch h
  | cons first rest ih =>
    obtain ⟨first, firstReport?⟩ := first
    obtain ⟨hfirst, hrest⟩ := List.nodup_cons.mp hnodup
    have hspanRest (word : Token) (report : Diagnostic) (h : (word, some report) ∈ rest) :=
      hspan word report (List.mem_cons_of_mem _ h)
    rcases List.mem_cons.mp h with heq | h
    · obtain ⟨rfl, rfl⟩ := Prod.mk.inj heq
      -- no later word stands where this one does
      have hnone : (rest.filterMap (·.2)).filter (·.note.span? == some word.span) = [] := by
        refine List.filter_eq_nil_iff.mpr fun report hreport hat => ?_
        obtain ⟨⟨w, _⟩, hw, rfl⟩ := List.mem_filterMap.mp hreport
        have hsame : w.span = word.span := by simpa [hspanRest w report hw] using hat
        exact hfirst (List.mem_map.mpr ⟨(w, some report), hw, hsame⟩)
      cases report? with
      | none => simpa using hnone
      | some report => simp [hspan word report List.mem_cons_self, hnone]
    · have hne : first.span ≠ word.span := fun hsame =>
        hfirst (List.mem_map.mpr ⟨(word, report?), h, hsame.symm⟩)
      rw [← ih hspanRest hrest h]
      cases firstReport? with
      | none => rfl
      | some report => simp [hspan first report List.mem_cons_self, hne]

/-- A word has a report or not. -/
theorem length_tally (tally : List (Token × Option Diagnostic)) :
    tally.length = (freshWords tally).length + (tally.filterMap (·.2)).length := by
  induction tally with
  | nil => rfl
  | cons entry rest ih =>
    obtain ⟨word, report?⟩ := entry
    cases report? with
    | none => simp_all [freshWords]; omega
    | some report => simp_all [freshWords]; omega

/-! ## The log of a source -/

/-- The words of the list of transitions of a source, each with the report about it. -/
def sourceTally (source : String) (options : Options) : List (Token × Option Diagnostic) :=
  wordTally (transitionReader source options) (transitionForm source options)
    ((parse source options).1.draft []) (transitionWords source options)

theorem map_fst_sourceTally (source : String) (options : Options) :
    (sourceTally source options).map (·.1) = transitionWords source options :=
  Draft.map_fst_outcomes _ _

theorem exists_entry_of_mem {source : String} {options : Options} {word : Token}
    (h : word ∈ transitionWords source options) :
    ∃ report?, (word, report?) ∈ sourceTally source options := by
  rw [← map_fst_sourceTally] at h
  obtain ⟨⟨_, report?⟩, hentry, rfl⟩ := List.mem_map.mp h
  exact ⟨report?, hentry⟩

/-- The entries about transitions are those about words that were replaced, and those of the
    words of the list. -/
theorem exists_filter_load (source : String) (options : Options) :
    ∃ replaced reports,
      (load source options).log.entries.toList.filter (·.isAboutTransition) = replaced ++ reports ∧
      (∀ report ∈ replaced, ∀ word ∈ transitionWords source options,
        report.note.span? ≠ some word.span) ∧
      reports.Perm ((sourceTally source options).filterMap (·.2)) := by
  obtain ⟨replaced, hread, hreplaced⟩ := exists_filter_parse source options
  refine ⟨replaced, _, ?_, hreplaced, reports_perm _⟩
  rw [toList_entries_load, List.filter_append, hread, filter_compile, transitionOutcomes,
    transitions_parse, List.append_assoc]

end Description

/-- The entries of a log that say of one of the words that it does not bring a new edge. -/
def Log.reportsOn (log : Log) (words : List Token) : List Diagnostic :=
  (log.entries.toList.filter (·.isAboutTransition)).filter fun d =>
    words.any fun word => d.note.span? == some word.span

namespace Description

variable {source : String} {options : Options}

/-- The entries on words of the list are those of the tally that stand there. -/
theorem reportsOn_perm {words : List Token} (hwords : words ⊆ transitionWords source options) :
    ((load source options).log.reportsOn words).Perm
      (((sourceTally source options).filterMap (·.2)).filter fun d =>
        words.any fun word => d.note.span? == some word.span) := by
  obtain ⟨replaced, reports, hfilter, hreplaced, hperm⟩ := exists_filter_load source options
  -- what was replaced does not stand at a word of the list
  have hnone : replaced.filter
      (fun d => words.any fun word => d.note.span? == some word.span) = [] := by
    refine List.filter_eq_nil_iff.mpr fun report hreport hat => ?_
    obtain ⟨word, hword, hspan⟩ := List.any_eq_true.mp hat
    exact hreplaced report hreport word (hwords hword) (by simpa using hspan)
  simp only [Log.reportsOn]
  rw [hfilter, List.filter_append, hnone, List.nil_append]
  exact hperm.filter _

/-- At a word there is the report of the tally, if it has one. -/
theorem reportsOn_singleton {word : Token} {report? : Option Diagnostic}
    (h : (word, report?) ∈ sourceTally source options) :
    (load source options).log.reportsOn [word] = report?.toList := by
  have hword : word ∈ transitionWords source options := (Draft.exists_report?_of_mem_outcomes h).1
  have hnodup : ((sourceTally source options).map (·.1.span)).Nodup := by
    have hspans := nodup_spans_transitionWords source options
    rw [← map_fst_sourceTally, List.map_map] at hspans
    exact hspans
  have hperm := reportsOn_perm (List.cons_subset.mpr ⟨hword, List.nil_subset _⟩)
  have hown : ((sourceTally source options).filterMap (·.2)).filter
      (·.note.span? == some word.span) = report?.toList :=
    filter_reports_eq (fun _ _ hentry => (span?_of_mem_wordTally hentry).1) hnodup h
  simp only [List.any_cons, List.any_nil, Bool.or_false] at hperm
  rw [hown] at hperm
  cases report? with
  | none => exact hperm.eq_nil
  | some report => exact hperm.eq_singleton

/-- On all words together there are the reports of the tally. -/
theorem length_reportsOn (source : String) (options : Options) :
    ((load source options).log.reportsOn (transitionWords source options)).length =
      ((sourceTally source options).filterMap (·.2)).length := by
  have hall : ((sourceTally source options).filterMap (·.2)).filter (fun d =>
      (transitionWords source options).any fun word => d.note.span? == some word.span) =
      (sourceTally source options).filterMap (·.2) := by
    refine List.filter_eq_self.mpr fun report hreport => ?_
    obtain ⟨⟨word, _⟩, hentry, rfl⟩ := List.mem_filterMap.mp hreport
    have hword : word ∈ transitionWords source options :=
      (Draft.exists_report?_of_mem_outcomes hentry).1
    refine List.any_eq_true.mpr ⟨word, hword, ?_⟩
    simp [(span?_of_mem_wordTally hentry).1]
  rw [(reportsOn_perm (List.Subset.refl _)).length_eq, hall]

/-- The words without an entry are those without a report. -/
theorem filter_reportsOn_eq (source : String) (options : Options) :
    (transitionWords source options).filter
        (fun word => ((load source options).log.reportsOn [word]).isEmpty) =
      freshWords (sourceTally source options) := by
  rw [← map_fst_sourceTally, List.filter_map]
  simp only [freshWords]
  congr 1
  refine List.filter_congr fun entry hentry => ?_
  obtain ⟨word, report?⟩ := entry
  simp only [Function.comp_apply]
  rw [reportsOn_singleton hentry]
  cases report? <;> rfl

/-- Unknown states and replaced edges are reported at words of the list. -/
theorem exists_word_of_issue? {d : Diagnostic} (hd : d ∈ (load source options).log.entries)
    {n : Note} (hn : n ∈ d.notes)
    (hissue : n.issue? = some .unknownStateReference ∨ n.issue? = some .transitionRedefined) :
    ∃ word ∈ transitionWords source options, n.span? = some word.span := by
  rw [← Array.mem_toList_iff, toList_entries_load, List.mem_append] at hd
  rcases hd with hd | hd
  · -- such issues are not found on reading
    obtain ⟨hunknown, hredefined⟩ := (readingReport_of_mem_parse hd).issue?_ne n hn
    exact (hissue.elim hunknown hredefined).elim
  · rcases mem_compile_snd hd with ⟨name, -, message, rfl⟩ | ⟨t, ht, issue, message, -, rfl⟩
    · obtain rfl := List.mem_singleton.mp hn
      simp [Diagnostic.error] at hissue
    · obtain rfl := List.mem_singleton.mp hn
      rw [transitions_parse] at ht
      obtain ⟨word, hword, hspan, -⟩ := mem_readTransitions.mp ht
      exact ⟨word, hword, congrArg some hspan⟩

end Description

/-! ## Main result -/

/-- No transition is dropped silently.  Every word of the list of transitions has at most one entry
    that says that it does not bring a new edge.  The words without such an entry and the edges of
    the automaton, each told by its state and its symbol, correspond one to one, so there are as
    many words as edges and such entries together.  Whatever is said about states that do not exist
    and about edges that are replaced is said at a word of the list. -/
theorem load_accounts_for_transitions (source : String) (options : Options) :
    let loaded := load source options
    let words := Description.transitionWords source options
    let fresh := words.filter fun word => (loaded.log.reportsOn [word]).isEmpty
    (∀ word ∈ words, (loaded.log.reportsOn [word]).length ≤ 1) ∧
      (fresh.map (Description.wordEdge? (Description.transitionReader source options)
        loaded.automaton)).Perm (loaded.automaton.edgePairs.map some) ∧
      loaded.automaton.edgePairs.Nodup ∧
      (∀ id c, (id, c) ∈ loaded.automaton.edgePairs ↔
        ∃ target, loaded.automaton.step id c = some target) ∧
      words.length = loaded.automaton.edgeCount + (loaded.log.reportsOn words).length ∧
      ∀ d ∈ loaded.log.entries, ∀ n ∈ d.notes,
        n.issue? = some .unknownStateReference ∨ n.issue? = some .transitionRedefined →
          ∃ word ∈ words, n.span? = some word.span := by
  intro loaded words fresh
  have hsize : loaded.automaton.size ≤ stateLimit := by
    have hrepresents := (Description.parse source options).1.represents_compile
    exact hrepresents.size_eq ▸ Roster.length_le _
  have hfresh : fresh = Description.freshWords (Description.sourceTally source options) :=
    Description.filter_reportsOn_eq source options
  have hedges : (fresh.map (Description.wordEdge? (Description.transitionReader source options)
      loaded.automaton)).Perm (loaded.automaton.edgePairs.map some) := by
    rw [hfresh]
    exact Description.edgePairs_perm_freshWords (Description.transitions_parse source options) _
  refine ⟨fun word hword => ?_, hedges, Automaton.nodup_edgePairs hsize,
    fun id c => Automaton.mem_edgePairs hsize, ?_, fun d hd n hn hissue =>
      Description.exists_word_of_issue? hd hn hissue⟩
  · obtain ⟨report?, hentry⟩ := Description.exists_entry_of_mem hword
    rw [Description.reportsOn_singleton hentry]
    cases report? <;> simp
  · have hcount := Description.length_tally (Description.sourceTally source options)
    have hwords : (Description.sourceTally source options).length = words.length := by
      rw [← List.length_map, Description.map_fst_sourceTally]
    have hlength := hedges.length_eq
    rw [List.length_map, List.length_map, Automaton.length_edgePairs hsize] at hlength
    rw [Description.length_reportsOn, ← hlength, hfresh, ← hwords, hcount]

end Acceptor
