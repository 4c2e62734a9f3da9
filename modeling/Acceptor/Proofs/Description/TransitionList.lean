import Acceptor.Proofs.Automaton.Edges
import Acceptor.Proofs.Description.Reports
import Acceptor.Proofs.Text.Places

/-!
# The list of transitions, word by word

The words of the list of transitions are gone through in order, and each of them either brings a new
edge or is reported: it is no transition, it is between states that do not exist, or it replaces the
edge of an earlier word.  `wordTally` lists the words with these reports.  A step of the loop keeps
the edges that are there, and adds one exactly if it reports nothing, so in the end the words
without a report and the edges of the automaton correspond.

* `transitions_parse`           which words the transitions of a source are read from
* `gained_wordTally`            the edges after a row of words
* `edgePairs_perm_freshWords`   the edges of a compiled automaton
-/

namespace Acceptor

/-! ## Gaining edges -/

namespace Roster

/-- `r'` has the edges of `r`, and edges for `keys`, each of which is listed once and was not
    there. -/
structure Gained (r : Roster) (keys : List (String × Char)) (r' : Roster) : Prop where
  isSome_edge_iff : ∀ p c, (r'.edge p c).isSome = true ↔ (r.edge p c).isSome = true ∨ (p, c) ∈ keys
  nodup : keys.Nodup
  edge_eq_none : ∀ p c, (p, c) ∈ keys → r.edge p c = none

variable {r r' r'' : Roster} {keys keys' : List (String × Char)}

theorem Gained.refl (r : Roster) : r.Gained [] r := ⟨by simp, List.nodup_nil, by simp⟩

theorem Gained.trans (h : r.Gained keys r') (h' : r'.Gained keys' r'') :
    r.Gained (keys ++ keys') r'' where
  isSome_edge_iff p c := by
    rw [h'.isSome_edge_iff, h.isSome_edge_iff, List.mem_append, or_assoc]
  nodup := by
    refine List.nodup_append'.mpr ⟨h.nodup, h'.nodup, ?_⟩
    rintro ⟨p, c⟩ hkey hkey'
    -- what was gained first is there when the rest is gained
    have hedge := (h.isSome_edge_iff p c).mpr (.inr hkey)
    simp [h'.edge_eq_none p c hkey'] at hedge
  edge_eq_none p c hkey := by
    rcases List.mem_append.mp hkey with hkey | hkey
    · exact h.edge_eq_none p c hkey
    · -- no edge goes missing, so what is not there later was not there before
      have hiff := h.isSome_edge_iff p c
      rw [h'.edge_eq_none p c hkey] at hiff
      simpa using fun hsome => hiff.mpr (.inl hsome)

/-- Where a transition between names is an edge, there is one afterwards. -/
theorem isSome_edge_addTransition (r : Roster) (t : Transition) (p : String) (c : Char) :
    ((r.addTransition t.source t.symbol t.target).2.edge p c).isSome = true ↔
      (r.edge p c).isSome = true ∨
        (t.source = p ∧ t.symbol = c ∧ p ∈ r.names ∧ t.target ∈ r.names) := by
  rw [(r.connected_addTransition t).edge_eq, lastTarget?_singleton, Option.isSome_or]
  split <;> simp_all

/-- A transition between names that had no edge brings one. -/
theorem gained_addTransition {t : Transition} (hsource : t.source ∈ r.names)
    (htarget : t.target ∈ r.names) (hnone : r.edge t.source t.symbol = none) :
    r.Gained [(t.source, t.symbol)] (r.addTransition t.source t.symbol t.target).2 where
  isSome_edge_iff p c := by
    rw [isSome_edge_addTransition, List.mem_singleton, Prod.mk.injEq]
    refine or_congr_right ⟨fun h => ⟨h.1.symm, h.2.1.symm⟩, ?_⟩
    rintro ⟨rfl, rfl⟩
    exact ⟨rfl, rfl, hsource, htarget⟩
  nodup := List.nodup_singleton _
  edge_eq_none p c hkey := by
    obtain ⟨rfl, rfl⟩ := Prod.mk.inj (List.mem_singleton.mp hkey)
    exact hnone

/-- Any other transition brings none. -/
theorem gained_nil_addTransition {t : Transition}
    (h : ¬(t.source ∈ r.names ∧ t.target ∈ r.names ∧ r.edge t.source t.symbol = none)) :
    r.Gained [] (r.addTransition t.source t.symbol t.target).2 where
  isSome_edge_iff p c := by
    rw [isSome_edge_addTransition, List.mem_nil_iff, or_false]
    refine or_iff_left_of_imp ?_
    rintro ⟨rfl, rfl, hsource, htarget⟩
    exact Option.isSome_iff_ne_none.mpr fun hnone => h ⟨hsource, htarget, hnone⟩
  nodup := List.nodup_nil
  edge_eq_none := by simp

end Roster

/-! ## Words of the list of transitions -/

namespace Description

/-- The words of the line that a legacy source is taken to list its transitions on. -/
def legacyTransitionWords : List Token → List Token
  | _ :: _ :: third :: rest =>
    if readsAsTransitions third then third.words else (rest.head?.map Located.words).getD []
  | _ => []

/-- The words of the list of transitions: those of the line that is taken for it, or those of the
    last section of transitions in front of the tests. -/
def transitionWords (source : String) (options : Options) : List Token :=
  let lines := Text.lines source
  if options.layout.isSectioned lines then
    lastWords .transitions (headerLines (sectionedBody lines))
  else legacyTransitionWords lines

/-- How these words are read: a legacy source knows the compact form only. -/
def transitionReader (source : String) (options : Options) : String → Option Transition :=
  if options.layout.isSectioned (Text.lines source) then Transition.read? else Transition.compact?

/-- What reports say transitions look like. -/
def transitionForm (source : String) (options : Options) : String :=
  if options.layout.isSectioned (Text.lines source) then
    "<from>,<symbol>,<to> or <from><symbol><to>"
  else "<from><symbol><to>"

theorem transitions_readLegacy (flagAmbiguity : Bool) (eof : Span) (lines : List Token) :
    (readLegacy flagAmbiguity eof lines).1.transitions =
      readTransitions Transition.compact? (legacyTransitionWords lines) := by
  match lines with
  | [] => rfl
  | [accepting] => rfl
  | [accepting, start] => rfl
  | accepting :: start :: third :: rest =>
    simp only [readLegacy, legacyTransitionWords]
    split
    · rfl
    · cases rest <;> rfl

theorem transitions_readSectioned (lines : List Token) :
    (readSectioned lines).1.transitions = readTransitions Transition.read?
      (lastWords .transitions (headerLines (sectionedBody lines))) :=
  congrArg Description.transitions (set_lastWords_readSectioned lines .transitions).symm

/-- The transitions of a description are those among the words of the list. -/
theorem transitions_parse (source : String) (options : Options) :
    (parse source options).1.transitions =
      readTransitions (transitionReader source options) (transitionWords source options) := by
  simp only [parse, transitionReader, transitionWords]
  split
  · exact transitions_readSectioned _
  · exact transitions_readLegacy _ _ _

/-- The words of the list stand on one line. -/
theorem transitionWords_eq (source : String) (options : Options) :
    transitionWords source options = [] ∨
      ∃ content : Token, transitionWords source options = content.words := by
  simp only [transitionWords]
  split
  · simp only [lastWords]
    cases (valuesOf .transitions (headerLines (sectionedBody (Text.lines source)))).getLast? with
    | none => exact .inl rfl
    | some value => exact .inr ⟨value, rfl⟩
  · match Text.lines source with
    | [] => exact .inl rfl
    | [accepting] => exact .inl rfl
    | [accepting, start] => exact .inl rfl
    | accepting :: start :: third :: rest =>
      simp only [legacyTransitionWords]
      split
      · exact .inr ⟨third, rfl⟩
      · cases rest with
        | nil => exact .inl rfl
        | cons line rest => exact .inr ⟨line, rfl⟩

/-- No two words of the list have the same place. -/
theorem nodup_spans_transitionWords (source : String) (options : Options) :
    ((transitionWords source options).map (·.span)).Nodup := by
  rcases transitionWords_eq source options with hnil | ⟨content, hwords⟩
  · rw [hnil]
    exact List.nodup_nil
  · rw [hwords]
    exact (Text.ascending_words content).nodup

/-! ## Word by word -/

namespace Draft

/-- Adds the transition that a word reads as. -/
def addWord (read? : String → Option Transition) (draft : Draft) (word : Token) : Draft :=
  match read? word.value with
  | none => draft
  | some t => draft.addTransition ⟨t, word.span⟩

/-- The report about a word that is no transition, or about the transition it is. -/
def wordReport? (read? : String → Option Transition) (form : String) (a : Automaton)
    (word : Token) : Option Diagnostic :=
  match read? word.value with
  | none => some (malformedTransition form word)
  | some t => transitionReport? a ⟨t, word.span⟩

end Draft

/-- The words of a list of transitions, each with the report about it. -/
def wordTally (read? : String → Option Transition) (form : String) (draft : Draft)
    (words : List Token) : List (Token × Option Diagnostic) :=
  Draft.outcomes (Draft.addWord read?) (Draft.wordReport? read? form) draft words

variable {read? : String → Option Transition} {form : String} {draft : Draft}

/-- The words of a tally without a report. -/
def freshWords (tally : List (Token × Option Diagnostic)) : List Token :=
  (tally.filter (·.2.isNone)).map (·.1)

/-- The names and symbols that the words without a report have an edge for. -/
def freshKeys (read? : String → Option Transition) (tally : List (Token × Option Diagnostic)) :
    List (String × Char) :=
  (freshWords tally).filterMap fun word => (read? word.value).map fun t => (t.source, t.symbol)

theorem freshKeys_cons_some (word : Token) (report : Diagnostic)
    (tally : List (Token × Option Diagnostic)) :
    freshKeys read? ((word, some report) :: tally) = freshKeys read? tally := by
  simp [freshKeys, freshWords]

theorem freshKeys_cons_none {word : Token} {t : Transition} (h : read? word.value = some t)
    (tally : List (Token × Option Diagnostic)) :
    freshKeys read? ((word, none) :: tally) = (t.source, t.symbol) :: freshKeys read? tally := by
  simp [freshKeys, freshWords, h]

theorem wordTally_cons_of_none {word : Token} (h : read? word.value = none) (words : List Token) :
    wordTally read? form draft (word :: words) =
      (word, some (malformedTransition form word)) :: wordTally read? form draft words := by
  simp [wordTally, Draft.outcomes, Draft.addWord, Draft.wordReport?, h]

theorem wordTally_cons_of_some {word : Token} {t : Transition} (h : read? word.value = some t)
    (words : List Token) :
    wordTally read? form draft (word :: words) =
      (word, Draft.transitionReport? draft.automaton ⟨t, word.span⟩) ::
        wordTally read? form (draft.addTransition ⟨t, word.span⟩) words := by
  simp [wordTally, Draft.outcomes, Draft.addWord, Draft.wordReport?, h]

theorem readTransitions_cons_of_none {word : Token} (h : read? word.value = none)
    (words : List Token) : readTransitions read? (word :: words) = readTransitions read? words := by
  simp [readTransitions, h]

theorem readTransitions_cons_of_some {word : Token} {t : Transition}
    (h : read? word.value = some t) (words : List Token) :
    readTransitions read? (word :: words) = ⟨t, word.span⟩ :: readTransitions read? words := by
  simp [readTransitions, h]

/-- The words without a report bring the edges that are new. -/
theorem gained_wordTally {r : Roster} (h : Represents draft.automaton r) (words : List Token) :
    r.Gained (freshKeys read? (wordTally read? form draft words))
      (r.after ((readTransitions read? words).map transitionCall)) := by
  induction words generalizing draft r with
  | nil => exact .refl r
  | cons word words ih =>
    cases hread : read? word.value with
    | none =>
      rw [wordTally_cons_of_none hread, readTransitions_cons_of_none hread, freshKeys_cons_some]
      exact ih h
    | some t =>
      have hnext := Draft.represents_addTransition h ⟨t, word.span⟩
      have hfresh := Draft.transitionReport?_eq_none_iff h ⟨t, word.span⟩
      rw [wordTally_cons_of_some hread, readTransitions_cons_of_some hread]
      -- the step of this word, and then those of the other words
      cases hreport : Draft.transitionReport? draft.automaton ⟨t, word.span⟩ with
      | none =>
        obtain ⟨hsource, htarget, hnone⟩ := hfresh.mp hreport
        rw [freshKeys_cons_none hread]
        exact (Roster.gained_addTransition hsource htarget hnone).trans (ih hnext)
      | some report =>
        rw [freshKeys_cons_some]
        refine (Roster.gained_nil_addTransition fun hnone => ?_).trans (ih hnext)
        simp [hfresh.mpr hnone] at hreport

/-- The edge of the automaton that a word names. -/
def wordEdge? (read? : String → Option Transition) (a : Automaton) (word : Token) :
    Option (StateId × Char) :=
  (read? word.value).bind fun t => (a.stateId? t.source).map (·, t.symbol)

/-- A word without a report reads as a transition. -/
theorem exists_read?_of_mem_freshWords {words : List Token} {word : Token}
    (h : word ∈ freshWords (wordTally read? form draft words)) :
    ∃ t, read? word.value = some t := by
  obtain ⟨⟨_, report?⟩, hmem, rfl⟩ := List.mem_map.mp h
  obtain ⟨htally, hnone⟩ := List.mem_filter.mp hmem
  obtain ⟨-, a, hreport⟩ := Draft.exists_report?_of_mem_outcomes htally
  obtain rfl := Option.isNone_iff_eq_none.mp hnone
  refine Option.ne_none_iff_exists'.mp fun hread => ?_
  simp [Draft.wordReport?, hread] at hreport

/-- The edges of a compiled automaton are those of the words without a report. -/
theorem edgePairs_perm_freshWords {d : Description} {words : List Token}
    (hd : d.transitions = readTransitions read? words) (form : String) :
    ((freshWords (wordTally read? form (d.draft []) words)).map (wordEdge? read? d.compile.1)).Perm
      (d.compile.1.edgePairs.map some) := by
  have hgained : d.namesRoster.Gained
      (freshKeys read? (wordTally read? form (d.draft []) words)) d.edgesRoster := by
    rw [edgesRoster, hd]
    exact gained_wordTally d.represents_draft_nil words
  -- there are no edges before the transitions are added, and binding the start adds none
  have hkeys (p : String) (c : Char) :
      (p, c) ∈ freshKeys read? (wordTally read? form (d.draft []) words) ↔
        (d.roster.edge p c).isSome = true := by
    have hnone : d.namesRoster.edge p c = none := by
      rw [d.grown_namesRoster.edge_eq]
      rfl
    have hiff := hgained.isSome_edge_iff p c
    rw [hnone] at hiff
    rw [d.roster_eq.2.2.1]
    simpa using hiff.symm
  have hperm := d.represents_compile.edgePairs_perm hgained.nodup hkeys
  -- every word without a report reads as a transition, so going word by word loses no key
  rw [freshKeys, List.map_filterMap] at hperm
  refine List.Perm.trans (List.Perm.of_eq ?_) hperm
  rw [← List.filterMap_eq_map']
  refine List.filterMap_congr fun word hword => ?_
  obtain ⟨t, ht⟩ := exists_read?_of_mem_freshWords hword
  simp [wordEdge?, ht]

end Description

end Acceptor
