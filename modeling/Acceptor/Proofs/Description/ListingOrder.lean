import Mathlib.Data.Finset.Card
import Acceptor.Proofs.Automaton.Agreement
import Acceptor.Proofs.Description.Reports
import Acceptor.Proofs.Description.Unplaced

/-!
# The order in which states are listed

A description may list its names in any order, several times, and as accepting states or as others.
Two descriptions that are `Relisted` forms of each other have the same names, the same accepting
names, the same start and the same transitions.  As long as there is room for all names, the rosters
of such descriptions agree, so their automata behave alike although all ids may differ, and the
reports on compiling them say the same.

* `Relisted.agree_roster`       the rosters agree
* `transitionReport?_congr`     one transition is reported alike
* `Relisted.compile_unplaced`   so are all of them
-/

namespace Acceptor

/-! ## Reports on transitions -/

/-- The answers of agreeing rosters differ in nothing but ids. -/
theorem Roster.Agree.answer_addTransition {r r' : Roster} (h : r.Agree r') (source : String)
    (symbol : Char) (target : String) :
    (∃ e, (r.addTransition source symbol target).1 = .error e ∧
        (r'.addTransition source symbol target).1 = .error e) ∨
      ∃ previous : Option String,
        (r.addTransition source symbol target).1 = .ok (previous.bind r.idOf?) ∧
        (r'.addTransition source symbol target).1 = .ok (previous.bind r'.idOf?) ∧
        ∀ p ∈ previous, p ∈ r.names ∧ p ∈ r'.names := by
  simp only [Roster.addTransition]
  by_cases hsource : source ∈ r.names
  · rw [dif_pos hsource, dif_pos ((h.mem_names source).mp hsource)]
    by_cases htarget : target ∈ r.names
    · rw [dif_pos htarget, dif_pos ((h.mem_names target).mp htarget), ← h.edge_eq]
      refine .inr ⟨r.edge source symbol, rfl, rfl, fun p hp => ?_⟩
      have hmem := (r.edge_mem hp).2
      exact ⟨hmem, (h.mem_names p).mp hmem⟩
    · rw [dif_neg htarget, dif_neg (mt (h.mem_names target).mpr htarget)]
      exact .inl ⟨_, rfl, rfl⟩
  · rw [dif_neg hsource, dif_neg (mt (h.mem_names source).mpr hsource)]
    exact .inl ⟨_, rfl, rfl⟩

/-- For which transitions are edges it does not matter in which order the names are listed. -/
theorem Roster.lastTarget?_congr {names names' : List String} (h : ∀ p, p ∈ names ↔ p ∈ names')
    (ts : List Transition) (p : String) (c : Char) :
    lastTarget? names ts p c = lastTarget? names' ts p c := by
  have hedge : isEdgeFor names p c = isEdgeFor names' p c := by
    funext t
    simp only [isEdgeFor, h]
  simp only [lastTarget?]
  rw [hedge]

namespace Description

namespace Draft

/-- The report about an edge that was replaced names the state it led to. -/
theorem redefined_congr {a a' : Automaton} {p p' : StateId} (hp : a.nameOf p = a'.nameOf p')
    (t : Located Transition) : redefined a t p = redefined a' t p' := by
  simp only [redefined]
  rw [hp]

variable {a a' : Automaton} {r r' : Roster}

/-- A transition is reported alike by automata that agree up to ids. -/
theorem transitionReport?_congr (h : Represents a r) (h' : Represents a' r') (hagree : r.Agree r')
    (t : Located Transition) : transitionReport? a t = transitionReport? a' t := by
  obtain ⟨hanswer, hnext⟩ := h.addTransition t.value.source t.value.symbol t.value.target
  obtain ⟨hanswer', hnext'⟩ := h'.addTransition t.value.source t.value.symbol t.value.target
  have hagreeNext := hagree.addTransition t.value.source t.value.symbol t.value.target
  simp only [transitionReport?]
  cases hadd : a.addTransition t.value.source t.value.symbol t.value.target with
  | mk answer b =>
  cases hadd' : a'.addTransition t.value.source t.value.symbol t.value.target with
  | mk answer' b' =>
  rw [hadd] at hanswer hnext
  rw [hadd'] at hanswer' hnext'
  dsimp only at hanswer hanswer' hnext hnext'
  rcases hagree.answer_addTransition t.value.source t.value.symbol t.value.target with
    ⟨e, he, he'⟩ | ⟨previous, hprevious, hprevious', hmem⟩
  · rw [hanswer, hanswer', he, he']
  · rw [hanswer, hanswer', hprevious, hprevious']
    cases previous with
    | none => rfl
    | some p =>
      obtain ⟨hp, hp'⟩ := hmem p rfl
      -- the replaced edges lead to states of one name, and nobody is renamed by the new edges
      have hname : b.nameOf (r.idOf p hp) = p := by
        refine hnext.nameOf_eq ?_
        rw [(r.connected_addTransition t.value).names_eq]
        exact r.getElem?_idOf p hp
      have hname' : b'.nameOf (r'.idOf p hp') = p := by
        refine hnext'.nameOf_eq ?_
        rw [(r'.connected_addTransition t.value).names_eq]
        exact r'.getElem?_idOf p hp'
      rw [Option.bind_some, Option.bind_some, Roster.idOf?_of_mem hp, Roster.idOf?_of_mem hp']
      exact congrArg some (redefined_congr (hname.trans hname'.symm) t)

/-- A row of transitions is reported alike by drafts that agree up to ids. -/
theorem outcomes_congr {draft draft' : Draft} (h : Represents draft.automaton r)
    (h' : Represents draft'.automaton r') (hagree : r.Agree r') (ts : List (Located Transition)) :
    outcomes addTransition transitionReport? draft ts =
      outcomes addTransition transitionReport? draft' ts := by
  induction ts generalizing draft draft' r r' with
  | nil => rfl
  | cons t ts ih =>
    have hnext := hagree.addTransition t.value.source t.value.symbol t.value.target
    rw [outcomes, outcomes, transitionReport?_congr h h' hagree t,
      ih (represents_addTransition h t) (represents_addTransition h' t) hnext]

end Draft

variable {d d' : Description}

/-! ## Names -/

theorem length_distinctNames (d : Description) :
    d.distinctNames.length = (d.names.map (·.value)).toFinset.card := by
  rw [← List.toFinset_card_of_nodup d.nodup_distinctNames]
  congr 1
  ext n
  rw [List.mem_toFinset, List.mem_toFinset, mem_distinctNames]

/-- If there is room for all names, none of them is reported. -/
theorem filterMap_nameOutcomes_eq_nil (hroom : d.distinctNames.length ≤ stateLimit) :
    d.nameOutcomes.filterMap (·.2) = [] := by
  have hfound : ((firstOccurrences d.names).foldl (Draft.addName d.acceptingNames) {}).found =
      #[] := by
    refine Draft.found_foldl_addName Represents.empty d.acceptingNames _ ?_
    rw [show (firstOccurrences d.names).length = d.distinctNames.length from
      (List.length_map _).symm, show Roster.empty.names.length = 0 from rfl, Nat.zero_add]
    exact hroom
  have hreports := Draft.toList_found_foldl (Draft.toList_found_addName d.acceptingNames)
    (firstOccurrences d.names) {}
  rw [hfound] at hreports
  exact hreports.symm

/-! ## Relisted descriptions -/

/-- The descriptions have the same start and the same transitions, in their order, and the same
    names, accepting and all together, wherever, however often and in whatever order these are
    listed. -/
structure Relisted (d d' : Description) : Prop where
  start_eq : d.start.map (·.value) = d'.start.map (·.value)
  transitions_eq : d.transitions.map (·.value) = d'.transitions.map (·.value)
  mem_accepting : ∀ n, n ∈ d.accepting.map (·.value) ↔ n ∈ d'.accepting.map (·.value)
  mem_names : ∀ n, n ∈ d.names.map (·.value) ↔ n ∈ d'.names.map (·.value)

namespace Relisted

/-- Relisted descriptions have equally many names. -/
theorem length_distinctNames_eq (h : d.Relisted d') :
    d.distinctNames.length = d'.distinctNames.length := by
  rw [length_distinctNames, length_distinctNames]
  congr 1
  ext n
  rw [List.mem_toFinset, List.mem_toFinset, h.mem_names]

/-- If there is room for all names, the same ones are registered. -/
theorem mem_registered (h : d.Relisted d') (hroom : d.distinctNames.length ≤ stateLimit)
    (n : String) : n ∈ d.registered ↔ n ∈ d'.registered := by
  have hroom' := h.length_distinctNames_eq ▸ hroom
  simp only [registered]
  rw [List.take_of_length_le hroom, List.take_of_length_le hroom', mem_distinctNames,
    mem_distinctNames, h.mem_names]

/-- The rosters with the names agree. -/
theorem agree_namesRoster (h : d.Relisted d') (hroom : d.distinctNames.length ≤ stateLimit) :
    d.namesRoster.Agree d'.namesRoster := by
  have hnames : d.namesRoster.names = d.registered := d.grown_namesRoster.names_eq
  have hnames' : d'.namesRoster.names = d'.registered := d'.grown_namesRoster.names_eq
  have hmem (p : String) : p ∈ d.namesRoster.names ↔ p ∈ d'.namesRoster.names := by
    rw [hnames, hnames', h.mem_registered hroom]
  have hnew (p : String) : p ∉ Roster.empty.names := List.not_mem_nil
  refine ⟨hmem, fun p hp => ?_, ?_, ?_⟩
  · rw [d.grown_namesRoster.accepting_eq p hp, d'.grown_namesRoster.accepting_eq p ((hmem p).mp hp),
      if_neg (hnew p), if_neg (hnew p), Bool.eq_iff_iff, Std.ExtTreeSet.contains_iff_mem,
      Std.ExtTreeSet.contains_iff_mem, mem_acceptingNames, mem_acceptingNames, h.mem_accepting]
  · exact d.grown_namesRoster.edge_eq.trans d'.grown_namesRoster.edge_eq.symm
  · exact d.grown_namesRoster.start_eq.trans d'.grown_namesRoster.start_eq.symm

/-- The rosters of relisted descriptions agree. -/
theorem agree_roster (h : d.Relisted d') (hroom : d.distinctNames.length ≤ stateLimit) :
    d.roster.Agree d'.roster := by
  have hmem := h.mem_registered hroom
  refine ⟨fun p => ?_, fun p hp => ?_, ?_, ?_⟩
  · rw [names_roster, names_roster, hmem]
  · rw [names_roster] at hp
    rw [Bool.eq_iff_iff, accepting_roster hp, accepting_roster ((hmem p).mp hp), h.mem_accepting]
  · funext p c
    rw [edge_roster, edge_roster, h.transitions_eq, Roster.lastTarget?_congr hmem]
  · rw [start_roster, start_roster, h.start_eq]

/-- If the transitions also stand at the same places, compiling reports the same. -/
theorem compile_snd_eq (h : d.Relisted d') (hroom : d.distinctNames.length ≤ stateLimit)
    (htransitions : d.transitions = d'.transitions) : d.compile.2 = d'.compile.2 := by
  have hroom' := h.length_distinctNames_eq ▸ hroom
  have houtcomes : d.transitionOutcomes = d'.transitionOutcomes := by
    simp only [transitionOutcomes]
    rw [← htransitions]
    exact Draft.outcomes_congr d.represents_draft_nil d'.represents_draft_nil
      (h.agree_namesRoster hroom) d.transitions
  rw [compile_snd, compile_snd, filterMap_nameOutcomes_eq_nil hroom,
    filterMap_nameOutcomes_eq_nil hroom', houtcomes]

theorem unplaced (h : d.Relisted d') : d.unplaced.Relisted d'.unplaced := by
  have hstart (d : Description) : d.unplaced.start.map (·.value) = d.start.map (·.value) := by
    simp only [Description.unplaced]
    rw [Option.map_map]
    rfl
  refine ⟨?_, ?_, fun n => ?_, fun n => ?_⟩
  · rw [hstart, hstart, h.start_eq]
  · simp only [Description.unplaced]
    rw [Located.map_value_unplaced, Located.map_value_unplaced, h.transitions_eq]
  · simp only [Description.unplaced]
    rw [Located.map_value_unplaced, Located.map_value_unplaced, h.mem_accepting]
  · rw [names_unplaced, names_unplaced, Located.map_value_unplaced, Located.map_value_unplaced,
      h.mem_names]

end Relisted

/-! ## Main result -/

/-- The order in which states are listed is irrelevant.  If two descriptions are relisted forms of
    each other and there is room for all their names, their automata give the same verdict on every
    input and tell the same about every run, and compiling them reports the same, up to places. -/
theorem compile_relisted {d d' : Description} (h : d.Relisted d')
    (hroom : (d.names.map (·.value)).toFinset.card ≤ stateLimit) :
    (∀ input, d.compile.1.run input = d'.compile.1.run input ∧
        d.compile.1.narrate input = d'.compile.1.narrate input) ∧
      d.compile.2.map Diagnostic.unplaced = d'.compile.2.map Diagnostic.unplaced := by
  rw [← length_distinctNames] at hroom
  have hagree := h.agree_roster hroom
  refine ⟨fun input => ⟨?_, ?_⟩, ?_⟩
  · rw [d.represents_compile.run_eq, d'.represents_compile.run_eq, hagree.run_eq]
  · exact hagree.narrate_eq d.represents_compile d'.represents_compile input
  · -- places do not matter for the reports, so those of the transitions may be taken to be equal
    have hroomUnplaced : d.unplaced.distinctNames.length ≤ stateLimit := by
      rwa [length_distinctNames, names_unplaced, Located.map_value_unplaced,
        ← length_distinctNames]
    have hreports := h.unplaced.compile_snd_eq hroomUnplaced
      (Located.map_unplaced_congr h.transitions_eq)
    rwa [compile_unplaced, compile_unplaced] at hreports

/-- A description with an edge that is given twice and one to a state that nothing defines. -/
def sampleListing : Description where
  start := some ⟨"s", .at 4⟩
  accepting := [⟨"t", .at 0⟩, ⟨"v", .at 2⟩]
  others := [⟨"u", .at 6⟩]
  transitions := [⟨⟨"s", 'a', "t"⟩, .at 8⟩, ⟨⟨"s", 'a', "v"⟩, .at 12⟩, ⟨⟨"u", 'b', "w"⟩, .at 16⟩]

/-- The same description, where all states but the start have other ids. -/
def sampleRelisting : Description where
  start := some ⟨"s", .at 9⟩
  accepting := [⟨"v", .at 0⟩, ⟨"t", .at 2⟩, ⟨"v", .at 4⟩]
  others := [⟨"t", .at 11⟩, ⟨"s", .at 13⟩, ⟨"u", .at 15⟩]
  transitions := [⟨⟨"s", 'a', "t"⟩, .at 20⟩, ⟨⟨"s", 'a', "v"⟩, .at 30⟩, ⟨⟨"u", 'b', "w"⟩, .at 40⟩]

theorem compile_relisted_sample :
    sampleListing.Relisted sampleRelisting ∧
      (∀ input, sampleListing.compile.1.run input = sampleRelisting.compile.1.run input ∧
        sampleListing.compile.1.narrate input = sampleRelisting.compile.1.narrate input) ∧
      sampleListing.compile.2.map Diagnostic.unplaced =
        sampleRelisting.compile.2.map Diagnostic.unplaced := by
  have h : sampleListing.Relisted sampleRelisting := by
    refine ⟨rfl, rfl, fun n => ?_, fun n => ?_⟩ <;>
      simp only [sampleListing, sampleRelisting, names, Option.toList, List.map_cons, List.map_nil,
        List.cons_append, List.nil_append, List.mem_cons, List.not_mem_nil] <;> grind
  exact ⟨h, compile_relisted h (by decide)⟩

end Description

end Acceptor
