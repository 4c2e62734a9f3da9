import Mathlib.Data.List.Basic
import Acceptor.Proofs.Automaton.ByName
import Acceptor.Proofs.Description.Calls

/-!
# What a description compiles to

The automaton of a description represents the roster that the calls of the description lead to.
This module says what that roster is, without following the calls: the names are the distinct names
of the description as far as there is room, an edge leads where the last transition for it says, and
nothing else is set.

* `mem_distinctNames`, `nodup_distinctNames`  every name is kept once
* `Roster.grown_after`                        a row of names is added
* `Roster.edge_after_connects`                a row of transitions is added
* `compile_snd_eq_nil`                        nothing is reported if nothing is amiss
-/

namespace Acceptor

/-! ## Distinct names -/

namespace Description

theorem exists_firstOccurrencesFrom (seen : Std.ExtTreeSet String) (kept : Array Token)
    (names : List Token) :
    ∃ fresh, firstOccurrencesFrom seen kept names = kept.toList ++ fresh ∧
      (fresh.map (·.value)).Nodup ∧
      ∀ n, n ∈ fresh.map (·.value) ↔ n ∈ names.map (·.value) ∧ n ∉ seen := by
  induction names generalizing seen kept with
  | nil => exact ⟨[], (List.append_nil _).symm, List.nodup_nil, by simp⟩
  | cons name names ih =>
    simp only [firstOccurrencesFrom]
    by_cases hseen : name.value ∈ seen
    · -- the name is skipped, and nothing is lost by that
      rw [if_pos hseen]
      obtain ⟨fresh, hfresh, hnodup, hmem⟩ := ih seen kept
      refine ⟨fresh, hfresh, hnodup, fun n => ?_⟩
      rw [hmem, List.map_cons, List.mem_cons]
      constructor
      · exact fun h => ⟨.inr h.1, h.2⟩
      · rintro ⟨rfl | h, hn⟩
        · exact absurd hseen hn
        · exact ⟨h, hn⟩
    · -- the name is kept, and later on it counts as seen
      rw [if_neg hseen]
      obtain ⟨fresh, hfresh, hnodup, hmem⟩ := ih (seen.insert name.value) (kept.push name)
      have hinsert : ∀ n, n ∉ seen.insert name.value ↔ n ≠ name.value ∧ n ∉ seen := by
        intro n
        rw [Std.ExtTreeSet.mem_insert, Std.LawfulEqCmp.compare_eq_iff_eq, not_or, eq_comm]
      refine ⟨name :: fresh, ?_, ?_, fun n => ?_⟩
      · rw [hfresh, Array.toList_push, List.append_assoc, List.singleton_append]
      · rw [List.map_cons, List.nodup_cons]
        exact ⟨fun h => ((hinsert _).mp ((hmem _).mp h).2).1 rfl, hnodup⟩
      · rw [List.map_cons, List.mem_cons, hmem, hinsert, List.map_cons, List.mem_cons]
        by_cases hn : n = name.value
        · subst hn
          simp [hseen]
        · simp [hn]

/-- The names of a description, each one once, in the order in which they first occur. -/
def distinctNames (d : Description) : List String := (firstOccurrences d.names).map (·.value)

theorem nodup_distinctNames (d : Description) : d.distinctNames.Nodup := by
  obtain ⟨fresh, hfresh, hnodup, -⟩ := exists_firstOccurrencesFrom ∅ #[] d.names
  simp only [distinctNames, firstOccurrences]
  rw [hfresh, List.nil_append]
  exact hnodup

theorem mem_distinctNames {d : Description} {n : String} :
    n ∈ d.distinctNames ↔ n ∈ d.names.map (·.value) := by
  obtain ⟨fresh, hfresh, -, hmem⟩ := exists_firstOccurrencesFrom ∅ #[] d.names
  simp only [distinctNames, firstOccurrences]
  rw [hfresh, List.nil_append, hmem]
  simp

/-- The start is the first name. -/
theorem head?_distinctNames {d : Description} {name : Token} (h : d.start = some name) :
    d.distinctNames.head? = some name.value := by
  have hnames : d.names = name :: (d.accepting ++ d.others) := by
    simp only [names]
    rw [h]
    rfl
  -- nothing was seen before the first name, so it is kept
  have hkept : (#[] : Array Token).push name = #[name] := rfl
  simp only [distinctNames, firstOccurrences]
  rw [hnames, firstOccurrencesFrom, if_neg (by simp), hkept]
  obtain ⟨fresh, hfresh, -, -⟩ := exists_firstOccurrencesFrom
    ((∅ : Std.ExtTreeSet String).insert name.value) #[name] (d.accepting ++ d.others)
  rw [hfresh]
  rfl

end Description

/-! ## Rows of calls -/

namespace Roster

/-- What adding the names `new` with the flags `flag` makes of a roster. -/
structure Grown (r : Roster) (flag : String → Bool) (new : List String) (r' : Roster) : Prop where
  names_eq : r'.names = (r.names ++ new).take stateLimit
  accepting_eq : ∀ p ∈ r'.names, r'.accepting p = if p ∈ r.names then r.accepting p else flag p
  edge_eq : r'.edge = r.edge
  start_eq : r'.start = r.start

theorem grown_after (r : Roster) (flag : String → Bool) (new : List String)
    (hnodup : (r.names ++ new).Nodup) :
    r.Grown flag new (r.after (new.map fun n => .addState n (flag n))) := by
  induction new generalizing r with
  | nil =>
    refine ⟨?_, fun p hp => (if_pos hp).symm, rfl, rfl⟩
    rw [List.append_nil, List.take_of_length_le r.length_le]
    rfl
  | cons n new ih =>
    have hn : n ∉ r.names := by
      intro hmem
      exact (List.nodup_append.mp hnodup).2.2 n hmem n (by simp) rfl
    have hafter : r.after ((n :: new).map fun n => .addState n (flag n)) =
        (r.addState n (flag n)).2.after (new.map fun n => .addState n (flag n)) := rfl
    rw [hafter]
    simp only [addState]
    rw [dif_neg hn]
    by_cases hroom : r.names.length < stateLimit
    · -- the name is registered, and the others follow it
      have hsplit : r.names ++ n :: new = (r.names ++ [n]) ++ new := by
        rw [List.append_assoc, List.singleton_append]
      have hgrown := ih (r.register n (flag n) hn hroom) (hsplit ▸ hnodup)
      rw [dif_pos hroom]
      refine ⟨hsplit ▸ hgrown.names_eq, fun p hp => ?_, hgrown.edge_eq, hgrown.start_eq⟩
      have hregister : (r.register n (flag n) hn hroom).accepting p =
          if p = n then flag n else r.accepting p := rfl
      have hmem : p ∈ (r.register n (flag n) hn hroom).names ↔ p ∈ r.names ∨ p = n := by
        show p ∈ r.names ++ [n] ↔ _
        rw [List.mem_append, List.mem_singleton]
      rw [hgrown.accepting_eq p hp, hregister]
      by_cases hpn : p = n
      · rw [if_pos (hmem.mpr (.inr hpn)), if_pos hpn, if_neg (hpn ▸ hn), hpn]
      · by_cases hpr : p ∈ r.names
        · rw [if_pos (hmem.mpr (.inl hpr)), if_neg hpn, if_pos hpr]
        · rw [if_neg fun h => (hmem.mp h).elim hpr hpn, if_neg hpr]
    · -- neither this name nor any later one is registered
      have hfull : r.names.length = stateLimit :=
        Nat.le_antisymm r.length_le (Nat.le_of_not_lt hroom)
      have hsub : (r.names ++ new).Sublist (r.names ++ n :: new) :=
        (List.sublist_cons_self n new).append_left r.names
      have hgrown := ih r (hnodup.sublist hsub)
      rw [dif_neg hroom]
      refine ⟨?_, hgrown.accepting_eq, hgrown.edge_eq, hgrown.start_eq⟩
      rw [hgrown.names_eq, List.take_append_of_le_length (Nat.le_of_eq hfull.symm),
        List.take_append_of_le_length (Nat.le_of_eq hfull.symm)]

theorem length_names_addState_le (r : Roster) (name : String) (accepting : Bool) :
    (r.addState name accepting).2.names.length ≤ r.names.length + 1 := by
  simp only [addState]
  split
  · exact Nat.le_succ _
  · split
    · exact Nat.le_of_eq List.length_append
    · exact Nat.le_succ _

/-- Whether a transition is an edge out of `p` on `c`, and between registered names. -/
def isEdgeFor (names : List String) (p : String) (c : Char) (t : Transition) : Bool :=
  t.source = p ∧ t.symbol = c ∧ p ∈ names ∧ t.target ∈ names

/-- Where the last of the transitions `ts` that is an edge out of `p` on `c` leads. -/
def lastTarget? (names : List String) (ts : List Transition) (p : String) (c : Char) :
    Option String :=
  ((ts.filter (isEdgeFor names p c)).getLast?).map (·.target)

theorem lastTarget?_append (names : List String) (ts us : List Transition) (p : String) (c : Char) :
    lastTarget? names (ts ++ us) p c =
      (lastTarget? names us p c).or (lastTarget? names ts p c) := by
  simp only [lastTarget?]
  rw [List.filter_append, List.getLast?_append, Option.map_or]

/-- If all transitions are between registered names and no two are for the same name and symbol,
    each of them is the last one for its own. -/
theorem lastTarget?_eq_some_iff {names : List String} {ts : List Transition}
    (hmem : ∀ t ∈ ts, t.source ∈ names ∧ t.target ∈ names)
    (hpair : ts.Pairwise fun t u => t.source = u.source → t.symbol ≠ u.symbol) {p : String}
    {c : Char} {q : String} : lastTarget? names ts p c = some q ↔ ⟨p, c, q⟩ ∈ ts := by
  simp only [lastTarget?]
  constructor
  · intro h
    obtain ⟨⟨source, symbol, target⟩, hlast, rfl⟩ := Option.map_eq_some_iff.mp h
    obtain ⟨hts, hedge⟩ := List.mem_filter.mp (List.mem_of_getLast? hlast)
    obtain ⟨rfl, rfl, -⟩ := of_decide_eq_true hedge
    exact hts
  · -- the transition is one of those that count, and there is no other one
    intro h
    obtain ⟨hp, hq⟩ := hmem _ h
    have hfilter : ⟨p, c, q⟩ ∈ ts.filter (isEdgeFor names p c) :=
      List.mem_filter.mpr ⟨h, decide_eq_true ⟨rfl, rfl, hp, hq⟩⟩
    have hedge : ∀ t ∈ ts.filter (isEdgeFor names p c), t.source = p ∧ t.symbol = c := by
      intro t ht
      have hmatch := of_decide_eq_true (List.mem_filter.mp ht).2
      exact ⟨hmatch.1, hmatch.2.1⟩
    have hpair := hpair.filter (isEdgeFor names p c)
    generalize ts.filter (isEdgeFor names p c) = edges at hfilter hedge hpair
    match edges, hfilter, hedge, hpair with
    | [t], hfilter, _, _ =>
      rw [← List.mem_singleton.mp hfilter]
      rfl
    | t :: u :: _, _, hedge, hpair =>
      -- two edges for the same name and symbol
      obtain ⟨ht, ht'⟩ := hedge t (by simp)
      obtain ⟨hu, hu'⟩ := hedge u (by simp)
      have hne := List.rel_of_pairwise_cons hpair (by simp) (ht.trans hu.symm)
      exact absurd (ht'.trans hu'.symm) hne

/-- What adding the transitions `ts` makes of a roster. -/
structure Connected (r : Roster) (ts : List Transition) (r' : Roster) : Prop where
  names_eq : r'.names = r.names
  accepting_eq : r'.accepting = r.accepting
  edge_eq : ∀ p c, r'.edge p c = (lastTarget? r.names ts p c).or (r.edge p c)
  start_eq : r'.start = r.start

theorem Connected.trans {r r' r'' : Roster} {ts us : List Transition} (h : r.Connected ts r')
    (h' : r'.Connected us r'') : r.Connected (ts ++ us) r'' where
  names_eq := h'.names_eq.trans h.names_eq
  accepting_eq := h'.accepting_eq.trans h.accepting_eq
  edge_eq p c := by
    rw [h'.edge_eq, h.edge_eq, h.names_eq, lastTarget?_append, Option.or_assoc]
  start_eq := h'.start_eq.trans h.start_eq

theorem lastTarget?_singleton (names : List String) (t : Transition) (p : String) (c : Char) :
    lastTarget? names [t] p c =
      if t.source = p ∧ t.symbol = c ∧ p ∈ names ∧ t.target ∈ names then some t.target
      else none := by
  unfold lastTarget? isEdgeFor
  rw [List.filter_cons, List.filter_nil]
  by_cases h : t.source = p ∧ t.symbol = c ∧ p ∈ names ∧ t.target ∈ names
  · rw [if_pos (decide_eq_true h), if_pos h]
    rfl
  · rw [if_neg (by simpa using h), if_neg h]
    rfl

theorem connected_addTransition (r : Roster) (t : Transition) :
    r.Connected [t] (r.addTransition t.source t.symbol t.target).2 := by
  simp only [addTransition]
  split
  · next hsource =>
    split
    · next htarget =>
      refine ⟨rfl, rfl, fun p c => ?_, rfl⟩
      have hedge : (r.connect t.source t.symbol t.target hsource htarget).edge p c =
          if p = t.source ∧ c = t.symbol then some t.target else r.edge p c := rfl
      rw [hedge, lastTarget?_singleton]
      by_cases hpc : p = t.source ∧ c = t.symbol
      · obtain ⟨rfl, rfl⟩ := hpc
        rw [if_pos ⟨rfl, rfl⟩, if_pos ⟨rfl, rfl, hsource, htarget⟩, Option.some_or]
      · rw [if_neg hpc, if_neg fun h => hpc ⟨h.1.symm, h.2.1.symm⟩, Option.none_or]
    · next htarget =>
      refine ⟨rfl, rfl, fun p c => ?_, rfl⟩
      rw [lastTarget?_singleton, if_neg fun h => htarget h.2.2.2, Option.none_or]
  · next hsource =>
    refine ⟨rfl, rfl, fun p c => ?_, rfl⟩
    have hnone : ¬(t.source = p ∧ t.symbol = c ∧ p ∈ r.names ∧ t.target ∈ r.names) := by
      intro hparts
      obtain ⟨hp, _, hmem, _⟩ := hparts
      exact hsource (hp ▸ hmem)
    rw [lastTarget?_singleton, if_neg hnone, Option.none_or]

theorem connected_after (r : Roster) (ts : List Transition) :
    r.Connected ts (r.after (ts.map fun t => .addTransition t.source t.symbol t.target)) := by
  induction ts generalizing r with
  | nil => exact ⟨rfl, rfl, fun _ _ => rfl, rfl⟩
  | cons t ts ih => exact (r.connected_addTransition t).trans (ih _)

end Roster

/-! ## The roster of a description -/

namespace Description

/-- The distinct names that there is room for. -/
def registered (d : Description) : List String := d.distinctNames.take stateLimit

/-- The roster with the names of a description. -/
def namesRoster (d : Description) : Roster :=
  Roster.empty.after ((firstOccurrences d.names).map (nameCall d.acceptingNames))

/-- The roster with the names and the transitions of a description. -/
def edgesRoster (d : Description) : Roster :=
  d.namesRoster.after (d.transitions.map transitionCall)

/-- The roster that the calls of a description lead to. -/
def roster (d : Description) : Roster := Roster.empty.after d.calls

theorem represents_compile (d : Description) : Represents d.compile.1 d.roster := by
  rw [compile_fst]
  exact represents_after d.calls

theorem grown_namesRoster (d : Description) :
    Roster.empty.Grown d.acceptingNames.contains d.distinctNames d.namesRoster := by
  have hcalls : (firstOccurrences d.names).map (nameCall d.acceptingNames) =
      d.distinctNames.map fun n => .addState n (d.acceptingNames.contains n) := by
    simp only [distinctNames]
    rw [List.map_map]
    rfl
  simp only [namesRoster]
  rw [hcalls]
  exact Roster.grown_after _ _ _ d.nodup_distinctNames

theorem connected_edgesRoster (d : Description) :
    d.namesRoster.Connected (d.transitions.map (·.value)) d.edgesRoster := by
  have hcalls : d.transitions.map transitionCall =
      (d.transitions.map (·.value)).map fun t => .addTransition t.source t.symbol t.target := by
    rw [List.map_map]
    rfl
  simp only [edgesRoster]
  rw [hcalls]
  exact Roster.connected_after _ _

theorem names_edgesRoster (d : Description) : d.edgesRoster.names = d.registered :=
  d.connected_edgesRoster.names_eq.trans d.grown_namesRoster.names_eq

/-- The start is registered, since it is the first name. -/
theorem start_mem_registered {d : Description} {name : Token} (h : d.start = some name) :
    name.value ∈ d.registered := by
  obtain ⟨names, hnames⟩ := List.head?_eq_some_iff.mp (head?_distinctNames h)
  simp only [registered]
  rw [hnames, show stateLimit = 65535 + 1 from rfl, List.take_succ_cons]
  exact List.mem_cons_self

/-- Binding the start changes nothing else. -/
theorem roster_eq (d : Description) :
    d.roster.names = d.edgesRoster.names ∧ d.roster.accepting = d.edgesRoster.accepting ∧
      d.roster.edge = d.edgesRoster.edge ∧ d.roster.start = d.start.map (·.value) := by
  have hafter : d.roster = d.edgesRoster.after (d.start.toList.map startCall) := by
    simp only [roster, calls, edgesRoster, namesRoster, Roster.after]
    rw [List.foldl_append, List.foldl_append]
  rw [hafter]
  cases hstart : d.start with
  | none =>
    -- no call binds the start, and it was not bound before
    have hnone : d.edgesRoster.start = none :=
      d.connected_edgesRoster.start_eq.trans d.grown_namesRoster.start_eq
    exact ⟨rfl, rfl, rfl, hnone⟩
  | some name =>
    have hmem : name.value ∈ d.edgesRoster.names :=
      d.names_edgesRoster ▸ start_mem_registered hstart
    have hbind : d.edgesRoster.after ((some name).toList.map startCall) =
        (d.edgesRoster.setStart name.value).2 := rfl
    rw [hbind]
    simp only [Roster.setStart]
    rw [dif_pos hmem]
    exact ⟨rfl, rfl, rfl, rfl⟩

theorem names_roster (d : Description) : d.roster.names = d.registered :=
  d.roster_eq.1.trans d.names_edgesRoster

theorem accepting_roster {d : Description} {p : String} (hp : p ∈ d.registered) :
    d.roster.accepting p = true ↔ p ∈ d.accepting.map (·.value) := by
  have hmem : p ∈ d.namesRoster.names := d.grown_namesRoster.names_eq ▸ hp
  have hnew : p ∉ Roster.empty.names := List.not_mem_nil
  rw [d.roster_eq.2.1, d.connected_edgesRoster.accepting_eq,
    d.grown_namesRoster.accepting_eq p hmem, if_neg hnew,
    Std.ExtTreeSet.contains_iff_mem, mem_acceptingNames]

theorem edge_roster (d : Description) (p : String) (c : Char) :
    d.roster.edge p c =
      Roster.lastTarget? d.registered (d.transitions.map (·.value)) p c := by
  have hempty : Roster.empty.edge p c = none := rfl
  have hnames : d.namesRoster.names = d.registered := d.grown_namesRoster.names_eq
  rw [d.roster_eq.2.2.1, d.connected_edgesRoster.edge_eq, d.grown_namesRoster.edge_eq, hempty,
    Option.or_none, hnames]

theorem start_roster (d : Description) : d.roster.start = d.start.map (·.value) :=
  d.roster_eq.2.2.2

/-! ## Reports -/

namespace Draft

variable {draft : Draft} {r : Roster}

/-- A step of the loop over the transitions is one call on the roster. -/
theorem represents_addTransition (h : Represents draft.automaton r) (t : Located Transition) :
    Represents (draft.addTransition t).automaton
      (r.addTransition t.value.source t.value.symbol t.value.target).2 := by
  rw [addTransition_automaton]
  exact (h.perform (transitionCall t)).2

/-- A name that there is room for is not reported. -/
theorem found_addName (h : Represents draft.automaton r) (accepting : Std.ExtTreeSet String)
    (name : Token) (hroom : r.names.length < stateLimit) :
    (draft.addName accepting name).found = draft.found := by
  -- the draft answers as the roster does
  have hok : ∃ how, (r.addState name.value (accepting.contains name.value)).1 = .ok how := by
    simp only [Roster.addState]
    split <;> exact ⟨_, rfl⟩
  obtain ⟨how, hok⟩ := hok
  have hanswer := (h.addState name.value (accepting.contains name.value)).1
  simp only [addName]
  cases hadd : draft.automaton.addState name.value (accepting.contains name.value) with
  | mk answer a =>
    rw [hadd, hok] at hanswer
    dsimp only at hanswer
    rw [hanswer]

/-- A transition between registered names that have no edge yet is not reported. -/
theorem found_addTransition (h : Represents draft.automaton r) (t : Located Transition)
    (hsource : t.value.source ∈ r.names) (htarget : t.value.target ∈ r.names)
    (hnone : r.edge t.value.source t.value.symbol = none) :
    (draft.addTransition t).found = draft.found := by
  have hanswer := (h.addTransition t.value.source t.value.symbol t.value.target).1
  have hok : (r.addTransition t.value.source t.value.symbol t.value.target).1 = .ok none := by
    simp only [Roster.addTransition]
    rw [dif_pos hsource, dif_pos htarget, hnone]
    rfl
  simp only [addTransition]
  cases hadd : draft.automaton.addTransition t.value.source t.value.symbol t.value.target with
  | mk answer a =>
    rw [hadd, hok] at hanswer
    dsimp only at hanswer
    rw [hanswer]

/-- A registered start is not reported. -/
theorem found_setStart (h : Represents draft.automaton r) {name : Token}
    (hname : name.value ∈ r.names) : (draft.setStart name).found = draft.found := by
  have hanswer := (h.setStart name.value).1
  have hok : (r.setStart name.value).1 = .ok (r.idOf name.value hname) := by
    simp only [Roster.setStart]
    rw [dif_pos hname]
  simp only [setStart]
  cases hset : draft.automaton.setStart name.value with
  | mk answer a =>
    rw [hset, hok] at hanswer
    dsimp only at hanswer
    rw [hanswer]

theorem found_foldl_addName (h : Represents draft.automaton r) (accepting : Std.ExtTreeSet String)
    (names : List Token) (hroom : r.names.length + names.length ≤ stateLimit) :
    (names.foldl (addName accepting) draft).found = draft.found := by
  induction names generalizing draft r with
  | nil => rfl
  | cons name names ih =>
    rw [List.length_cons] at hroom
    have hnext : Represents (draft.addName accepting name).automaton
        (r.addState name.value (accepting.contains name.value)).2 := by
      rw [addName_automaton]
      exact (h.perform (nameCall accepting name)).2
    have hlength := r.length_names_addState_le name.value (accepting.contains name.value)
    rw [List.foldl_cons, ih hnext (by omega), found_addName h accepting name (by omega)]

theorem found_foldl_addTransition (h : Represents draft.automaton r)
    (ts : List (Located Transition))
    (hmem : ∀ t ∈ ts, t.value.source ∈ r.names ∧ t.value.target ∈ r.names)
    (hpair : ts.Pairwise fun t u => t.value.source = u.value.source →
      t.value.symbol ≠ u.value.symbol)
    (hnone : ∀ t ∈ ts, r.edge t.value.source t.value.symbol = none) :
    (ts.foldl addTransition draft).found = draft.found := by
  induction ts generalizing draft r with
  | nil => rfl
  | cons t ts ih =>
    obtain ⟨hsource, htarget⟩ := hmem t (by simp)
    obtain ⟨hfirst, hpair⟩ := List.pairwise_cons.mp hpair
    have hnext := represents_addTransition h t
    have hconnected := r.connected_addTransition t.value
    rw [List.foldl_cons, ih hnext ?_ hpair ?_,
      found_addTransition h t hsource htarget (hnone t (by simp))]
    · intro u hu
      rw [hconnected.names_eq]
      exact hmem u (by simp [hu])
    · -- the new edge is not the one of a later transition
      intro u hu
      have hother : ¬(t.value.source = u.value.source ∧ t.value.symbol = u.value.symbol ∧
          u.value.source ∈ r.names ∧ t.value.target ∈ r.names) :=
        fun hsame => hfirst u hu hsame.1 hsame.2.1
      rw [hconnected.edge_eq, Roster.lastTarget?_singleton, if_neg hother, Option.none_or]
      exact hnone u (by simp [hu])

end Draft

/-- Nothing is reported if there is room for all names, all transitions are between names of the
    description, and no two of them are for the same state and symbol. -/
theorem compile_snd_eq_nil {d : Description} (hroom : d.distinctNames.length ≤ stateLimit)
    (hmem : ∀ t ∈ d.transitions.map (·.value), t.source ∈ d.distinctNames ∧
      t.target ∈ d.distinctNames)
    (hpair : (d.transitions.map (·.value)).Pairwise fun t u => t.source = u.source →
      t.symbol ≠ u.symbol) : d.compile.2 = [] := by
  have hregistered : d.registered = d.distinctNames := List.take_of_length_le hroom
  have hnames : d.namesRoster.names = d.distinctNames :=
    d.grown_namesRoster.names_eq.trans hregistered
  -- the draft with the names
  let named := (firstOccurrences d.names).foldl (Draft.addName d.acceptingNames) {}
  have hnamed : Represents named.automaton d.namesRoster := by
    show Represents ((firstOccurrences d.names).foldl (Draft.addName d.acceptingNames) {}).automaton
      d.namesRoster
    rw [Draft.foldl_automaton (Draft.addName_automaton d.acceptingNames)]
    exact Represents.empty.after _
  have hlength : Roster.empty.names.length + (firstOccurrences d.names).length ≤ stateLimit := by
    have hcount : (firstOccurrences d.names).length = d.distinctNames.length :=
      (List.length_map _).symm
    rw [hcount]
    exact (Nat.zero_add _).symm ▸ hroom
  have hfoundNames : named.found = #[] :=
    Draft.found_foldl_addName Represents.empty d.acceptingNames (firstOccurrences d.names) hlength
  -- the draft with the transitions
  have hdraft : Represents (d.draft d.transitions).automaton d.edgesRoster := by
    simp only [draft]
    rw [Draft.foldl_automaton Draft.addTransition_automaton]
    exact hnamed.after _
  have hfoundEdges : (d.draft d.transitions).found = #[] := by
    rw [← hfoundNames]
    apply Draft.found_foldl_addTransition hnamed
    · intro t ht
      rw [hnames]
      exact hmem t.value (List.mem_map_of_mem ht)
    · exact List.pairwise_map.mp hpair
    · intro t _
      rw [d.grown_namesRoster.edge_eq]
      rfl
  -- the start is registered, so binding it adds nothing
  rw [compile_eq]
  cases hstart : d.start with
  | none => exact congrArg Array.toList hfoundEdges
  | some name =>
    have hname : name.value ∈ d.edgesRoster.names :=
      d.names_edgesRoster ▸ start_mem_registered hstart
    exact congrArg Array.toList ((Draft.found_setStart hdraft hname).trans hfoundEdges)

end Description

end Acceptor
