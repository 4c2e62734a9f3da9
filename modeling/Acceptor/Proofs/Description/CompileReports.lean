import Acceptor.Proofs.Automaton.Agreement
import Acceptor.Proofs.Description.Meaning

/-!
# What compiling reports

Compiling a description reports every name that there is no room for, and then goes through the
transitions.  Whether a transition is reported depends on those in front of it: it is dropped if one
of its names is not registered, and otherwise it replaces the last of the earlier ones that is an
edge for the same name and symbol.  An earlier transition that was dropped is no edge and is never
said to be replaced.

* `filterMap_outcomes_addName`         the names, one after the other
* `transitionReport?_eq`               one transition, in terms of the roster
* `filterMap_outcomes_addTransition`   the transitions, one after the other
* `emitAll_compile`                    all reports on compiling
-/

namespace Acceptor

namespace Description

/-- The report about a name that there is no room for. -/
def noRoom (name : Token) : Diagnostic :=
  .error none BuildError.tooManyStates.message (some name.span)

/-- The report about a transition that replaces an edge to the state `previous`. -/
def redefinition (t : Located Transition) (previous : String) : Diagnostic :=
  .warning .transitionRedefined
    ("transition from " ++ Text.quoteString t.value.source ++ " on " ++
      Text.quoteChar t.value.symbol ++ " redefined (previously to " ++
      Text.quoteString previous ++ ")") t.span

/-- The report about a transition behind the transitions `earlier`, where the names in `registered`
    are those of states. -/
def reportBehind? (registered : List String) (earlier : List Transition)
    (t : Located Transition) : Option Diagnostic :=
  if t.value.source ∉ registered then some (Draft.dropped t (.unknownState t.value.source))
  else if t.value.target ∉ registered then some (Draft.dropped t (.unknownState t.value.target))
  else (Roster.lastTarget? registered earlier t.value.source t.value.symbol).map (redefinition t)

namespace Draft

variable {draft : Draft} {r : Roster}

/-! ## Names -/

/-- A new name is reported exactly if there is no room for it. -/
theorem nameReport?_of_not_mem {a : Automaton} (h : Represents a r) {name : Token}
    (hname : name.value ∉ r.names) (accepting : Std.ExtTreeSet String) :
    nameReport? accepting a name =
      if r.names.length < stateLimit then none else some (noRoom name) := by
  simp only [nameReport?]
  rw [(h.addState name.value _).1, Roster.answer_addState_of_not_mem hname]
  by_cases hroom : r.names.length < stateLimit
  · rw [dif_pos hroom, if_pos hroom]
  · rw [dif_neg hroom, if_neg hroom]
    rfl

/-- Names are reported from the one on for which there is no room. -/
theorem filterMap_outcomes_addName (h : Represents draft.automaton r)
    (accepting : Std.ExtTreeSet String) (names : List Token)
    (hnodup : (r.names ++ names.map (·.value)).Nodup) :
    (outcomes (addName accepting) (nameReport? accepting) draft names).filterMap (·.2) =
      (names.drop (stateLimit - r.names.length)).map noRoom := by
  induction names generalizing draft r with
  | nil => simp [outcomes]
  | cons name names ih =>
    have hname : name.value ∉ r.names := by
      intro hmem
      exact (List.nodup_append.mp hnodup).2.2 _ hmem _ (by simp) rfl
    have hnext : Represents (draft.addName accepting name).automaton
        (r.addState name.value (accepting.contains name.value)).2 := by
      rw [addName_automaton]
      exact (h.perform (nameCall accepting name)).2
    rw [outcomes, nameReport?_of_not_mem h hname]
    simp only [Roster.addState] at hnext
    rw [dif_neg hname] at hnext
    by_cases hroom : r.names.length < stateLimit
    · -- the name is registered, so there is room for one less of the others
      rw [dif_pos hroom] at hnext
      have hrest := ih hnext (by simpa [Roster.register] using hnodup)
      have hlength : stateLimit - r.names.length =
          stateLimit - (r.names ++ [name.value]).length + 1 := by
        rw [List.length_append, List.length_singleton]
        omega
      rw [if_pos hroom, List.filterMap_cons_none rfl, hlength, List.drop_succ_cons]
      exact hrest
    · -- there is no room for this name, nor for any later one
      rw [dif_neg hroom] at hnext
      have hsub : (r.names ++ names.map (·.value)).Sublist
          (r.names ++ (name :: names).map (·.value)) :=
        (List.sublist_cons_self _ _).append_left r.names
      have hrest := ih hnext (hnodup.sublist hsub)
      have hfull : stateLimit - r.names.length = 0 := by omega
      rw [hfull] at hrest ⊢
      rw [if_neg hroom, List.filterMap_cons]
      dsimp only
      rw [hrest]
      rfl

/-! ## Transitions -/

/-- What is reported about a transition, in terms of the roster. -/
theorem transitionReport?_eq {a : Automaton} (h : Represents a r) (t : Located Transition) :
    transitionReport? a t =
      if t.value.source ∉ r.names then some (dropped t (.unknownState t.value.source))
      else if t.value.target ∉ r.names then some (dropped t (.unknownState t.value.target))
      else (r.edge t.value.source t.value.symbol).map (redefinition t) := by
  obtain ⟨hanswer, hnext⟩ := h.addTransition t.value.source t.value.symbol t.value.target
  have hnames := (r.connected_addTransition t.value).names_eq
  simp only [transitionReport?]
  cases hadd : a.addTransition t.value.source t.value.symbol t.value.target with
  | mk answer b =>
    rw [hadd] at hanswer hnext
    dsimp only at hanswer hnext
    simp only [Roster.addTransition] at hanswer
    by_cases hsource : t.value.source ∈ r.names
    · rw [dif_pos hsource] at hanswer
      rw [if_neg (not_not_intro hsource)]
      by_cases htarget : t.value.target ∈ r.names
      · rw [dif_pos htarget] at hanswer
        rw [if_neg (not_not_intro htarget), hanswer]
        cases hedge : r.edge t.value.source t.value.symbol with
        | none => rfl
        | some q =>
          -- the state that the edge led to is still called by its name
          have hq := (r.edge_mem hedge).2
          have hname : b.nameOf (r.idOf q hq) = q := by
            refine hnext.nameOf_eq ?_
            rw [hnames]
            exact r.getElem?_idOf q hq
          rw [Option.bind_some, Roster.idOf?_of_mem hq]
          dsimp only
          rw [Option.map_some, redefined, hname, redefinition]
      · rw [dif_neg htarget] at hanswer
        rw [if_pos htarget, hanswer]
    · rw [dif_neg hsource] at hanswer
      rw [if_pos hsource, hanswer]

/-- Each transition is reported as it has to be behind those in front of it. -/
theorem filterMap_outcomes_addTransition {names : List String} {front : List Transition}
    (h : Represents draft.automaton r) (hnames : r.names = names)
    (hedge : ∀ p c, r.edge p c = Roster.lastTarget? names front p c)
    (ts : List (Located Transition)) :
    (outcomes addTransition transitionReport? draft ts).filterMap (·.2) =
      (ts.zipIdx front.length).filterMap fun p =>
        reportBehind? names ((front ++ ts.map (·.value)).take p.2) p.1 := by
  induction ts generalizing draft r front with
  | nil => rfl
  | cons t ts ih =>
    have hconnected := r.connected_addTransition t.value
    -- for the others, this transition is the last one of those in front
    have hedge' (p : String) (c : Char) :
        (r.addTransition t.value.source t.value.symbol t.value.target).2.edge p c =
          Roster.lastTarget? names (front ++ [t.value]) p c := by
      rw [hconnected.edge_eq, hedge, hnames, ← Roster.lastTarget?_append]
    have hrest := ih (represents_addTransition h t) (hconnected.names_eq.trans hnames) hedge'
    have hreport : transitionReport? draft.automaton t = reportBehind? names front t := by
      rw [transitionReport?_eq h, hnames, hedge]
      rfl
    have hfront : (front ++ (t :: ts).map (·.value)).take front.length = front :=
      List.take_left
    rw [List.length_append, List.length_singleton, List.append_assoc, List.singleton_append]
      at hrest
    rw [outcomes, List.zipIdx_cons, List.filterMap_cons, List.filterMap_cons, hreport, hrest]
    dsimp only
    rw [hfront]
    rfl

end Draft

/-! ## Main result -/

theorem filterMap_nameOutcomes (d : Description) :
    d.nameOutcomes.filterMap (·.2) =
      ((d.names.eraseDupsBy fun t u => t.value == u.value).drop stateLimit).map noRoom := by
  have hempty : Represents ({} : Draft).automaton Roster.empty := Represents.empty
  have hnodup : (Roster.empty.names ++ (firstOccurrences d.names).map (·.value)).Nodup :=
    d.nodup_distinctNames
  rw [← firstOccurrences_eq_eraseDupsBy]
  exact Draft.filterMap_outcomes_addName hempty d.acceptingNames _ hnodup

theorem filterMap_transitionOutcomes (d : Description) :
    d.transitionOutcomes.filterMap (·.2) =
      d.transitions.zipIdx.filterMap fun p =>
        reportBehind? d.registered ((d.transitions.take p.2).map (·.value)) p.1 := by
  have hgrown := d.grown_namesRoster
  have hnames : d.namesRoster.names = d.registered := hgrown.names_eq
  -- no edge was there before
  have hedge (p : String) (c : Char) :
      d.namesRoster.edge p c = Roster.lastTarget? d.registered [] p c := by
    rw [hgrown.edge_eq]
    rfl
  have hreports := Draft.filterMap_outcomes_addTransition d.represents_draft_nil hnames hedge
    d.transitions
  simp only [transitionOutcomes, List.map_take]
  exact hreports

/-- What compiling adds to a log, in this order and behind the entries that are there: an error for
    every distinct name that there is no room for, at its first occurrence, and then, for every
    transition that calls for one, a warning, which depends on the transitions in front of it. -/
theorem emitAll_compile (d : Description) (log : Log) :
    let registered := ((d.names.map (·.value)).eraseDups).take stateLimit
    (log.emitAll d.compile.2).entries.toList = log.entries.toList ++
      (((d.names.eraseDupsBy fun t u => t.value == u.value).drop stateLimit).map noRoom ++
        d.transitions.zipIdx.filterMap fun p =>
          reportBehind? registered ((d.transitions.take p.2).map (·.value)) p.1) := by
  intro registered
  have hregistered : d.registered = registered := d.registered_eq_take
  rw [Log.toList_entries_emitAll, compile_snd, filterMap_nameOutcomes,
    filterMap_transitionOutcomes, hregistered]

end Description

end Acceptor
