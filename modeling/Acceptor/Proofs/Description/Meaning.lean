import Acceptor.Proofs.Automaton.Arena
import Acceptor.Proofs.Description.Start

/-!
# What a description means

The automaton of a description can be told from its lists alone.  Its states are the distinct names,
each at the place of its first occurrence, as far as there is room; a state accepts if its name is
listed as accepting; an edge leads where the last transition for it says, transitions with a name
that is not registered left aside; and the start is the first state.

Every name is added once, so adding it never empties a state that is there already.

* `firstOccurrences_eq_eraseDupsBy`, `distinctNames_eq_eraseDups`   which names are added
* `answer_addName`      what adding each of them answers
* `registered_of_get?_compile`, `step_compile`   one state of the automaton
* `compile_described`   the automaton of a description
-/

namespace Acceptor

/-- Elements that are told apart by `f` are dropped in step with their images. -/
theorem map_eraseDupsBy {α β : Type} [BEq β] (f : α → β) (xs : List α) :
    (xs.eraseDupsBy fun x y => f x == f y).map f = (xs.map f).eraseDups := by
  match xs with
  | [] => rfl
  | x :: xs =>
    rw [List.eraseDupsBy_cons, List.map_cons, map_eraseDupsBy f, List.map_cons,
      List.eraseDups_cons, List.filter_map]
    simp [Function.comp_def]
termination_by xs.length
decreasing_by exact Nat.lt_succ_of_le (List.length_filter_le _ _)

/-- What adding a name answers that is not registered yet. -/
theorem Roster.answer_addState_of_not_mem {r : Roster} {name : String} (h : name ∉ r.names)
    (accepting : Bool) :
    (r.addState name accepting).1 =
      if hroom : r.names.length < stateLimit then .ok (.fresh ⟨r.names.length, hroom⟩)
      else .error .tooManyStates := by
  simp only [addState]
  rw [dif_neg h]
  split <;> rfl

namespace Description

/-! ## First occurrences -/

theorem firstOccurrencesFrom_eq (seen : Std.ExtTreeSet String) (kept : Array Token)
    (names : List Token) :
    firstOccurrencesFrom seen kept names =
      kept.toList ++ (names.filter (·.value ∉ seen)).eraseDupsBy fun t u => t.value == u.value := by
  induction names generalizing seen kept with
  | nil => simp [firstOccurrencesFrom]
  | cons name names ih =>
    simp only [firstOccurrencesFrom]
    by_cases hseen : name.value ∈ seen
    · rw [if_pos hseen, ih, List.filter_cons_of_neg (by simpa using hseen)]
    · -- from here on the name counts as seen, so its later occurrences are dropped
      have hfilter : names.filter (·.value ∉ seen.insert name.value) =
          (names.filter (·.value ∉ seen)).filter fun t => (t.value == name.value) = false := by
        rw [List.filter_filter]
        apply List.filter_congr
        intro t _
        have hinsert : t.value ∈ seen.insert name.value ↔
            t.value = name.value ∨ t.value ∈ seen := by
          rw [Std.ExtTreeSet.mem_insert, Std.LawfulEqCmp.compare_eq_iff_eq, eq_comm]
        simp [hinsert]
      rw [if_neg hseen, ih, hfilter, List.filter_cons_of_pos (by simpa using hseen),
        List.eraseDupsBy_cons, Array.toList_push, List.append_assoc, List.singleton_append]

/-- The names that are kept are those whose text does not occur earlier. -/
theorem firstOccurrences_eq_eraseDupsBy (names : List Token) :
    firstOccurrences names = names.eraseDupsBy fun t u => t.value == u.value := by
  have hnone : names.filter (·.value ∉ (∅ : Std.ExtTreeSet String)) = names :=
    List.filter_eq_self.mpr (by simp)
  simp only [firstOccurrences]
  rw [firstOccurrencesFrom_eq, hnone]
  exact List.nil_append _

theorem distinctNames_eq_eraseDups (d : Description) :
    d.distinctNames = (d.names.map (·.value)).eraseDups := by
  simp only [distinctNames]
  rw [firstOccurrences_eq_eraseDupsBy, map_eraseDupsBy]

/-! ## Adding names -/

namespace Draft

/-- The draft in which the names `front` were added represents a roster of them, as far as there is
    room. -/
theorem exists_represents_names (accepting : Std.ExtTreeSet String) {front : List Token}
    (hnodup : (front.map (·.value)).Nodup) :
    ∃ r : Roster, Represents (front.foldl (addName accepting) {}).automaton r ∧
      r.names = (front.map (·.value)).take stateLimit := by
  have hcalls : front.map (nameCall accepting) =
      (front.map (·.value)).map fun n => .addState n (accepting.contains n) := by
    rw [List.map_map]
    rfl
  have hnew : (Roster.empty.names ++ front.map (·.value)).Nodup := hnodup
  have hgrown := Roster.grown_after Roster.empty accepting.contains (front.map (·.value)) hnew
  refine ⟨_, ?_, hgrown.names_eq⟩
  rw [foldl_automaton (addName_automaton accepting), hcalls]
  exact Represents.empty.after _

/-- A name that was not added before gets the next id, or is refused if there is none. -/
theorem answer_addName (accepting : Std.ExtTreeSet String) {front : List Token} {name : Token}
    (hnodup : ((front ++ [name]).map (·.value)).Nodup) :
    ((front.foldl (addName accepting) {}).automaton.addState name.value
        (accepting.contains name.value)).1 =
      if h : front.length < stateLimit then .ok (.fresh ⟨front.length, h⟩)
      else .error .tooManyStates := by
  rw [List.map_append, List.map_singleton, List.nodup_append] at hnodup
  obtain ⟨hfront, -, hdisjoint⟩ := hnodup
  obtain ⟨r, hrep, hnames⟩ := exists_represents_names accepting hfront
  have hnew : name.value ∉ r.names := by
    intro hmem
    rw [hnames] at hmem
    exact hdisjoint _ (List.mem_of_mem_take hmem) _ (List.mem_singleton_self _) rfl
  have hlength : r.names.length = min stateLimit front.length := by
    rw [hnames, List.length_take, List.length_map]
  rw [(hrep.addState name.value _).1, Roster.answer_addState_of_not_mem hnew]
  by_cases h : front.length < stateLimit
  · have hsame : r.names.length = front.length := by omega
    simp only [hsame]
  · rw [dif_neg (by omega), dif_neg h]

end Draft

/-! ## Parts of the automaton -/

theorem registered_eq_take (d : Description) :
    d.registered = ((d.names.map (·.value)).eraseDups).take stateLimit := by
  simp only [registered]
  rw [distinctNames_eq_eraseDups]

/-- The id of a state is the place of its name among those that are registered. -/
theorem stateId?_compile_eq_some_iff (d : Description) (name : String) (id : StateId) :
    d.compile.1.stateId? name = some id ↔ d.registered[id.index]? = some name := by
  rw [d.represents_compile.stateId?_eq, Roster.idOf?_eq_some_iff, names_roster]

/-- A state has its name at the place that its id gives, and accepts if the name is listed as
    accepting. -/
theorem registered_of_get?_compile {d : Description} {id : StateId} {s : State}
    (hs : d.compile.1.get? id = some s) : d.registered[id.index]? = some s.name ∧
      (s.accepting = true ↔ s.name ∈ d.accepting.map (·.value)) := by
  obtain ⟨hmem, hplace, hsp⟩ := d.represents_compile.exists_name hs
  refine ⟨?_, ?_⟩
  · rw [← names_roster, ← hplace]
    exact d.roster.getElem?_idOf _ hmem
  · rw [hsp.accepting_eq]
    exact accepting_roster (d.names_roster ▸ hmem)

/-- A step out of a state leads to the state of the last target that is given for it. -/
theorem step_compile {d : Description} {id : StateId} {s : State}
    (hs : d.compile.1.get? id = some s) (c : Char) :
    d.compile.1.step id c =
      (Roster.lastTarget? d.registered (d.transitions.map (·.value)) s.name c).bind
        d.compile.1.stateId? := by
  have hrep := d.represents_compile
  obtain ⟨hmem, hplace, -⟩ := hrep.exists_name hs
  have hstep := hrep.step_eq _ hmem c
  rw [hplace, edge_roster] at hstep
  rw [hstep]
  exact Option.bind_congr fun q _ => (hrep.stateId?_eq q).symm

theorem hasEdge_compile_iff (d : Description) (p : String) (c : Char) (q : String) :
    d.compile.1.HasEdge p c q ↔
      Roster.lastTarget? d.registered (d.transitions.map (·.value)) p c = some q := by
  rw [d.represents_compile.hasEdge_iff, edge_roster]

/-- The start is the first state. -/
theorem map_index_start_compile (d : Description) :
    d.compile.1.start.map (·.index) = d.start.map fun _ => 0 := by
  cases hstart : d.start with
  | none =>
    rw [show d.compile.1.start = none from start_compile_of_none hstart]
    rfl
  | some name =>
    obtain ⟨id, s, hid, hfirst, -⟩ := start_compile_of_some hstart
    rw [show d.compile.1.start = some id from hid]
    exact congrArg some hfirst

/-- The names in front of a name that is added are distinct from it and from each other. -/
theorem nodup_of_firstOccurrences {d : Description} {front back : List Token} {name : Token}
    (h : firstOccurrences d.names = front ++ name :: back) :
    ((front ++ [name]).map (·.value)).Nodup := by
  have hnodup := d.nodup_distinctNames
  simp only [distinctNames] at hnodup
  rw [h, List.append_cons, List.map_append] at hnodup
  exact (List.nodup_append.mp hnodup).1

/-! ## Main result -/

/-- The automaton of a description.  Its states are the distinct names of the start, the accepting
    states and the others, in the order in which they first occur and as far as there is room, each
    with its place as its id.  A state accepts if its name is listed as accepting.  Out of a state
    and on a symbol, an edge leads where the last transition for them says, among those whose two
    names are registered, and there is no other edge.  The start is the first state, if one is
    given.  Adding a name on the way gives it the next id or is refused, and never replaces a
    state. -/
theorem compile_described (d : Description) :
    let a := d.compile.1
    let registered := ((d.names.map (·.value)).eraseDups).take stateLimit
    let transitions := d.transitions.map (·.value)
    a.names = registered ∧
      (∀ name id, a.stateId? name = some id ↔ registered[id.index]? = some name) ∧
      (∀ id s, a.get? id = some s → registered[id.index]? = some s.name ∧
        (s.accepting = true ↔ s.name ∈ d.accepting.map (·.value)) ∧
        ∀ c, a.step id c =
          (Roster.lastTarget? registered transitions s.name c).bind a.stateId?) ∧
      (∀ p c q, a.HasEdge p c q ↔ Roster.lastTarget? registered transitions p c = some q) ∧
      (a.start.map (·.index) = d.start.map fun _ => 0) ∧
      ∀ front name back, firstOccurrences d.names = front ++ name :: back →
        ((front.foldl (Draft.addName d.acceptingNames) {}).automaton.addState name.value
            (d.acceptingNames.contains name.value)).1 =
          if h : front.length < stateLimit then .ok (.fresh ⟨front.length, h⟩)
          else .error .tooManyStates := by
  intro a registered transitions
  have hregistered : d.registered = registered := d.registered_eq_take
  rw [← hregistered]
  refine ⟨d.represents_compile.names_eq.trans d.names_roster, d.stateId?_compile_eq_some_iff,
    fun id s hs => ?_, d.hasEdge_compile_iff, d.map_index_start_compile,
    fun front name back hfront => ?_⟩
  · obtain ⟨hname, haccepting⟩ := registered_of_get?_compile hs
    exact ⟨hname, haccepting, step_compile hs⟩
  · exact Draft.answer_addName d.acceptingNames (nodup_of_firstOccurrences hfront)

end Description

end Acceptor
