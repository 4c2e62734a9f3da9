import Acceptor.Automaton.Run
import Acceptor.Proofs.Automaton.Roster

/-!
# Automata refine rosters

An automaton `Represents` a roster if every look-up in it can be told from the roster: a name has
the id that is its place in the list, and the state at that place has the name's flag and the
name's edges, translated from names to ids.

Each editing operation keeps the two in step and gives the same answer on both sides, whether it
succeeds or is refused.  By induction the same holds of any sequence of calls, and since runs only
look at what the relation fixes, runs agree as well.

* `Represents.perform`   one call
* `represents_after`     any number of calls
* `Represents.unique`    the relation leaves nothing of the automaton open
-/

namespace Acceptor

namespace Roster

/-- What a roster says about the state with the name `p`. -/
structure Describes (r : Roster) (p : String) (s : State) : Prop where
  name_eq : s.name = p
  accepting_eq : s.accepting = r.accepting p
  next?_eq : ∀ c, s.next? c = (r.edge p c).bind r.idOf?

end Roster

/-- States of which a roster says the same are equal. -/
theorem Roster.Describes.unique {r : Roster} {p : String} {s t : State} (hs : r.Describes p s)
    (ht : r.Describes p t) : s = t := by
  have hedges : s.edges = t.edges := by
    apply Std.ExtTreeMap.ext_getElem?
    intro c
    exact (hs.next?_eq c).trans (ht.next?_eq c).symm
  have hname : s.name = t.name := hs.name_eq.trans ht.name_eq.symm
  have haccepting : s.accepting = t.accepting := hs.accepting_eq.trans ht.accepting_eq.symm
  cases s
  cases t
  exact (State.mk.injEq ..).mpr ⟨hname, haccepting, hedges⟩

/-- An automaton holds exactly what a roster says, in the form of ids and states. -/
structure Represents (a : Automaton) (r : Roster) : Prop where
  size_eq : a.size = r.names.length
  stateId?_eq : ∀ name, a.stateId? name = r.idOf? name
  get?_idOf : ∀ p (hp : p ∈ r.names), ∃ s, a.get? (r.idOf p hp) = some s ∧ r.Describes p s
  start_eq : a.start = r.start.bind r.idOf?

namespace Represents

variable {a : Automaton} {r : Roster}

theorem empty : Represents .empty .empty where
  size_eq := rfl
  stateId?_eq _ := Std.ExtTreeMap.getElem?_empty
  get?_idOf _ hp := absurd hp List.not_mem_nil
  start_eq := rfl

/-! ## What can be seen of single states -/

theorem step_eq (h : Represents a r) (p : String) (hp : p ∈ r.names) (c : Char) :
    a.step (r.idOf p hp) c = (r.edge p c).bind r.idOf? := by
  obtain ⟨s, hs, hsp⟩ := h.get?_idOf p hp
  simp only [Automaton.step]
  rw [hs]
  exact hsp.next?_eq c

theorem isAccepting_eq (h : Represents a r) (p : String) (hp : p ∈ r.names) :
    a.isAccepting (r.idOf p hp) = r.accepting p := by
  obtain ⟨s, hs, hsp⟩ := h.get?_idOf p hp
  simp only [Automaton.isAccepting]
  rw [hs]
  exact hsp.accepting_eq

/-- Every id of a state is the id of a name, and the roster describes the state there. -/
theorem exists_name (h : Represents a r) {id : StateId} {s : State} (hs : a.get? id = some s) :
    ∃ hp : s.name ∈ r.names, r.idOf s.name hp = id ∧ r.Describes s.name s := by
  have hlt : id.index < r.names.length := h.size_eq ▸ Automaton.exists_get?_iff.mp ⟨s, hs⟩
  have hid := r.idOf_getElem id hlt
  obtain ⟨t, ht, htp⟩ := h.get?_idOf _ (List.getElem_mem hlt)
  rw [hid, hs, Option.some_inj] at ht
  subst ht
  have hmem : s.name ∈ r.names := htp.name_eq ▸ List.getElem_mem hlt
  refine ⟨hmem, ?_, htp.name_eq.symm ▸ htp⟩
  rw [← hid]
  congr 1
  exact htp.name_eq

/-! ## Editing -/

theorem reset (h : Represents a r) (name : String) (accepting : Bool) (hname : name ∈ r.names) :
    Represents (a.setState (r.idOf name hname) { name, accepting }) (r.reset name accepting) where
  size_eq := by
    rw [Automaton.size_setState]
    exact h.size_eq
  stateId?_eq := h.stateId?_eq
  get?_idOf p hp := by
    obtain ⟨s, hs, hsp⟩ := h.get?_idOf p hp
    have hget := a.get?_setState (r.idOf name hname) (r.idOf p hp) { name, accepting }
    by_cases hpn : p = name
    · -- the emptied state has no edges on either side
      subst hpn
      rw [if_pos rfl, hs] at hget
      refine ⟨_, hget, rfl, (if_pos rfl).symm, fun c => ?_⟩
      rw [show (r.reset p accepting).edge p c = none from if_pos rfl]
      exact Std.ExtTreeMap.getElem?_empty
    · -- the edges of the other states stay, also those that lead to the emptied one
      have hne : r.idOf name hname ≠ r.idOf p hp := fun he => hpn (Roster.idOf_inj he).symm
      rw [if_neg hne] at hget
      refine ⟨s, hget.trans hs, hsp.name_eq, hsp.accepting_eq.trans (if_neg hpn).symm, fun c => ?_⟩
      rw [show (r.reset name accepting).edge p c = r.edge p c from if_neg hpn]
      exact hsp.next?_eq c
  start_eq := h.start_eq

/-- Ids of registered names stay what they are when a name is registered. -/
private theorem bind_idOf?_register {r : Roster} {name : String} (accepting : Bool)
    (hname : name ∉ r.names) (hroom : r.names.length < stateLimit) {o : Option String}
    (ho : ∀ {q}, o = some q → q ∈ r.names) :
    o.bind (r.register name accepting hname hroom).idOf? = o.bind r.idOf? := by
  cases o with
  | none => rfl
  | some q =>
    have hq : q ≠ name := fun h => hname (h ▸ ho rfl)
    rw [Option.bind_some, Option.bind_some, Roster.idOf?_register, if_neg hq]

theorem register (h : Represents a r) (name : String) (accepting : Bool) (hname : name ∉ r.names)
    (hroom : r.names.length < stateLimit) :
    Represents (a.pushState ⟨r.names.length, hroom⟩ { name, accepting })
      (r.register name accepting hname hroom) where
  size_eq := by
    rw [Automaton.size_pushState, h.size_eq]
    show r.names.length + 1 = (r.names ++ [name]).length
    rw [List.length_append, List.length_singleton]
  stateId?_eq p := by
    rw [Roster.idOf?_register, ← h.stateId?_eq]
    have hinsert : (a.pushState ⟨r.names.length, hroom⟩ { name, accepting }).stateId? p = _ :=
      Std.ExtTreeMap.getElem?_insert
    rw [hinsert]
    simp only [Std.LawfulEqCmp.compare_eq_iff_eq, eq_comm (a := name)]
    rfl
  get?_idOf p hp := by
    have hget := a.get?_pushState ⟨r.names.length, hroom⟩
      ((r.register name accepting hname hroom).idOf p hp) { name, accepting } h.size_eq.symm
    have hid := Roster.idOf?_register r name accepting hname hroom p
    rw [Roster.idOf?_of_mem hp] at hid
    by_cases hpn : p = name
    · subst hpn
      rw [if_pos rfl, Option.some_inj] at hid
      rw [hid, if_pos rfl] at hget
      refine ⟨_, hid ▸ hget, rfl, (if_pos rfl).symm, fun c => ?_⟩
      -- the new state has no edges, and the roster had none for an unknown name
      have hedge : r.edge p c = none := by
        cases hq : r.edge p c with
        | none => rfl
        | some q => exact absurd (r.edge_mem hq).1 hname
      rw [show (r.register p accepting hname hroom).edge p c = none from hedge]
      exact Std.ExtTreeMap.getElem?_empty
    · -- the other states stand where they stood, and their targets keep their ids
      have hmem : p ∈ r.names :=
        (List.mem_append.mp hp).resolve_right fun hq => hpn (List.mem_singleton.mp hq)
      rw [if_neg hpn, Roster.idOf?_of_mem hmem, Option.some_inj] at hid
      have hne : r.idOf p hmem ≠ ⟨r.names.length, hroom⟩ := by
        intro he
        have hlt := r.idOf_lt p hmem
        rw [he] at hlt
        exact Nat.lt_irrefl _ hlt
      obtain ⟨s, hs, hsp⟩ := h.get?_idOf p hmem
      rw [hid, if_neg hne, hs] at hget
      refine ⟨s, hid ▸ hget, hsp.name_eq, hsp.accepting_eq.trans (if_neg hpn).symm, fun c => ?_⟩
      have hbind := bind_idOf?_register accepting hname hroom
        (o := r.edge p c) fun hq => (r.edge_mem hq).2
      exact (hsp.next?_eq c).trans hbind.symm
  start_eq := by
    have hbind := bind_idOf?_register accepting hname hroom r.start_mem
    exact h.start_eq.trans hbind.symm

theorem connect (h : Represents a r) (source : String) (symbol : Char) (target : String)
    (hsource : source ∈ r.names) (htarget : target ∈ r.names) :
    Represents
      (a.modifyState (r.idOf source hsource) fun s => (s.connect symbol (r.idOf target htarget)).2)
      (r.connect source symbol target hsource htarget) where
  size_eq := by
    rw [Automaton.size_modifyState]
    exact h.size_eq
  stateId?_eq := h.stateId?_eq
  get?_idOf p hp := by
    obtain ⟨s, hs, hsp⟩ := h.get?_idOf p hp
    have hget := a.get?_modifyState (r.idOf source hsource) (r.idOf p hp)
      fun s => (s.connect symbol (r.idOf target htarget)).2
    by_cases hps : p = source
    · subst hps
      rw [if_pos rfl, hs] at hget
      refine ⟨_, hget, hsp.name_eq, hsp.accepting_eq, fun c => ?_⟩
      -- only the edge on `symbol` is another one
      have hnext : (s.connect symbol (r.idOf target htarget)).2.next? c = _ :=
        Std.ExtTreeMap.getElem?_insert
      rw [hnext]
      by_cases hc : c = symbol
      · subst hc
        have hedge : (r.connect p c target hp htarget).edge p c = some target :=
          if_pos ⟨rfl, rfl⟩
        rw [hedge, if_pos (Std.ReflCmp.compare_self)]
        exact (Roster.idOf?_of_mem htarget).symm
      · have hedge : (r.connect p symbol target hp htarget).edge p c = r.edge p c :=
          if_neg fun hpc => hc hpc.2
        rw [hedge, if_neg fun hcmp => hc (Std.LawfulEqCmp.compare_eq_iff_eq.mp hcmp).symm]
        exact hsp.next?_eq c
    · -- no other state has changed
      have hne : r.idOf source hsource ≠ r.idOf p hp :=
        fun he => hps (Roster.idOf_inj he).symm
      rw [if_neg hne] at hget
      refine ⟨s, hget.trans hs, hsp.name_eq, hsp.accepting_eq, fun c => ?_⟩
      have hedge : (r.connect source symbol target hsource htarget).edge p c = r.edge p c :=
        if_neg fun hpc => hps hpc.1
      rw [hedge]
      exact hsp.next?_eq c
  start_eq := h.start_eq

/-- The start can be bound to any registered name, or to none. -/
theorem withStart (h : Represents a r) (start : Option String)
    (hstart : ∀ {p}, start = some p → p ∈ r.names) :
    Represents { a with start := start.bind r.idOf? } { r with start, start_mem := hstart } where
  size_eq := h.size_eq
  stateId?_eq := h.stateId?_eq
  get?_idOf p hp := by
    obtain ⟨s, hs, hsp⟩ := h.get?_idOf p hp
    exact ⟨s, hs, hsp.name_eq, hsp.accepting_eq, hsp.next?_eq⟩
  start_eq := rfl

/-! ## One call -/

/-- Adding a state is answered in the same way on both sides and keeps them in step. -/
theorem addState (h : Represents a r) (name : String) (accepting : Bool) :
    (a.addState name accepting).1 = (r.addState name accepting).1 ∧
      Represents (a.addState name accepting).2 (r.addState name accepting).2 := by
  have hid := h.stateId?_eq name
  simp only [Roster.addState]
  -- the roster knows the name exactly if the automaton does
  by_cases hname : name ∈ r.names
  · rw [dif_pos hname]
    rw [Roster.idOf?_of_mem hname] at hid
    rw [Automaton.addState_of_known accepting hid]
    exact ⟨rfl, h.reset name accepting hname⟩
  · rw [dif_neg hname]
    rw [Roster.idOf?_of_not_mem hname] at hid
    by_cases hroom : r.names.length < stateLimit
    · have hnew : (⟨r.names.length, hroom⟩ : StateId).index = a.size := h.size_eq.symm
      rw [dif_pos hroom, Automaton.addState_of_new accepting hid hnew]
      exact ⟨rfl, h.register name accepting hname hroom⟩
    · have hfull : stateLimit ≤ a.size := h.size_eq ▸ Nat.le_of_not_lt hroom
      rw [dif_neg hroom, Automaton.addState_of_full accepting hid hfull]
      exact ⟨rfl, h⟩

/-- Adding a transition is answered in the same way on both sides and keeps them in step. -/
theorem addTransition (h : Represents a r) (source : String) (symbol : Char) (target : String) :
    (a.addTransition source symbol target).1 = (r.addTransition source symbol target).1 ∧
      Represents (a.addTransition source symbol target).2
        (r.addTransition source symbol target).2 := by
  have hp := h.stateId?_eq source
  have hq := h.stateId?_eq target
  simp only [Roster.addTransition]
  -- the source is looked up first, on both sides
  by_cases hsource : source ∈ r.names
  · rw [dif_pos hsource]
    rw [Roster.idOf?_of_mem hsource] at hp
    by_cases htarget : target ∈ r.names
    · rw [dif_pos htarget]
      rw [Roster.idOf?_of_mem htarget] at hq
      rw [Automaton.addTransition_of_known symbol hp hq, h.step_eq]
      exact ⟨rfl, h.connect source symbol target hsource htarget⟩
    · rw [dif_neg htarget]
      rw [Roster.idOf?_of_not_mem htarget] at hq
      simp only [Automaton.addTransition]
      rw [hp, hq]
      exact ⟨rfl, h⟩
  · rw [dif_neg hsource]
    rw [Roster.idOf?_of_not_mem hsource] at hp
    simp only [Automaton.addTransition]
    rw [hp]
    exact ⟨rfl, h⟩

/-- Binding the start is answered in the same way on both sides and keeps them in step. -/
theorem setStart (h : Represents a r) (name : String) :
    (a.setStart name).1 = (r.setStart name).1 ∧
      Represents (a.setStart name).2 (r.setStart name).2 := by
  have hid := h.stateId?_eq name
  simp only [Automaton.setStart, Roster.setStart]
  by_cases hname : name ∈ r.names
  · have hstart := h.withStart (some name) fun hp => Option.some.inj hp ▸ hname
    rw [Option.bind_some, Roster.idOf?_of_mem hname] at hstart
    rw [dif_pos hname, hid, Roster.idOf?_of_mem hname]
    exact ⟨rfl, hstart⟩
  · have hnone {p : String} (hp : none = some p) : p ∈ r.names := absurd hp.symm (by simp)
    rw [dif_neg hname, hid, Roster.idOf?_of_not_mem hname]
    exact ⟨rfl, h.withStart none hnone⟩

/-- Every call is answered in the same way on both sides and keeps them in step. -/
theorem perform (h : Represents a r) (edit : Edit) :
    (a.perform edit).1 = (r.perform edit).1 ∧ Represents (a.perform edit).2 (r.perform edit).2 := by
  cases edit with
  | addState name accepting =>
    obtain ⟨hanswer, hrep⟩ := h.addState name accepting
    exact ⟨congrArg (Except.map Answer.added) hanswer, hrep⟩
  | addTransition source symbol target =>
    obtain ⟨hanswer, hrep⟩ := h.addTransition source symbol target
    exact ⟨congrArg (Except.map Answer.connected) hanswer, hrep⟩
  | setStart name =>
    obtain ⟨hanswer, hrep⟩ := h.setStart name
    exact ⟨congrArg (Except.map Answer.started) hanswer, hrep⟩

/-- Any number of calls keeps both sides in step. -/
theorem after (h : Represents a r) (edits : List Edit) :
    Represents (a.after edits) (r.after edits) := by
  -- the relation is the invariant, and both sides change
  induction edits generalizing a r with
  | nil => exact h
  | cons edit edits ih => exact ih (h.perform edit).2

/-! ## Runs -/

/-- Following edges as far as they go: either all symbols have one, or the roster has none
    somewhere. -/
theorem advance_eq (h : Represents a r) (p : String) (hp : p ∈ r.names) (cs : List Char) :
    match cs.foldlM r.edge p with
    | some q => ∃ hq : q ∈ r.names, a.advance (r.idOf p hp) cs = (r.idOf q hq, [])
    | none => (a.advance (r.idOf p hp) cs).2 ≠ [] := by
  -- the place in the run is the id of a name throughout
  induction cs generalizing p with
  | nil => exact ⟨hp, rfl⟩
  | cons c cs ih =>
    have hstep := h.step_eq p hp c
    simp only [Automaton.advance]
    rw [List.foldlM_cons]
    cases hq : r.edge p c with
    | none =>
      rw [hq] at hstep
      rw [hstep]
      exact List.cons_ne_nil c cs
    | some q =>
      have hmem := (r.edge_mem hq).2
      rw [hq, Option.bind_some, Roster.idOf?_of_mem hmem] at hstep
      rw [hstep]
      exact ih q hmem

theorem run_eq (h : Represents a r) (input : String) : a.run input = r.run input := by
  have hstart := h.start_eq
  simp only [Automaton.run, Roster.run]
  cases hp : r.start with
  | none =>
    rw [hp] at hstart
    rw [hstart]
    rfl
  | some p =>
    have hmem := r.start_mem hp
    rw [hp, Option.bind_some, Roster.idOf?_of_mem hmem] at hstart
    rw [hstart]
    have hadvance := h.advance_eq p hmem input.toList
    dsimp only
    cases hfold : input.toList.foldlM r.edge p with
    | none =>
      rw [hfold] at hadvance
      cases hrest : a.advance (r.idOf p hmem) input.toList with
      | mk q rest =>
        rw [hrest] at hadvance
        -- a run that is stuck has symbols left, so it does not accept
        cases rest with
        | nil => exact absurd rfl hadvance
        | cons c cs => rfl
    | some q =>
      rw [hfold] at hadvance
      obtain ⟨hq, hadvance⟩ := hadvance
      rw [hadvance]
      exact congrArg Except.ok (h.isAccepting_eq q hq)

theorem traceFrom_eq (h : Represents a r) (events : Array RunEvent) (p : String) (hp : p ∈ r.names)
    (position : Nat) (cs : List Char) :
    a.traceFrom events (r.idOf p hp) position cs =
      ⟨events.toList ++ (r.traceFrom p hp position cs).events,
        (r.traceFrom p hp position cs).accepted⟩ := by
  induction cs generalizing events p position with
  | nil =>
    simp only [Automaton.traceFrom, Roster.traceFrom]
    rw [h.isAccepting_eq, Array.toList_push]
  | cons c cs ih =>
    have hstep := h.step_eq p hp c
    simp only [Automaton.traceFrom]
    cases hq : r.edge p c with
    | none =>
      rw [hq, Option.bind_none] at hstep
      rw [hstep, Roster.traceFrom_of_none hp position cs hq, ← Array.toList_push]
    | some q =>
      have hmem := (r.edge_mem hq).2
      rw [hq, Option.bind_some, Roster.idOf?_of_mem hmem] at hstep
      rw [hstep, Roster.traceFrom_of_some hp position cs hq]
      dsimp only
      rw [ih, Array.toList_push, List.append_assoc, List.singleton_append]

theorem trace_eq (h : Represents a r) (input : String) : a.trace input = r.trace input := by
  have hstart := h.start_eq
  simp only [Automaton.trace]
  cases hp : r.start with
  | none =>
    rw [hp, Option.bind_none] at hstart
    rw [hstart, Roster.trace_of_none input hp]
  | some p =>
    have hmem := r.start_mem hp
    rw [hp, Option.bind_some, Roster.idOf?_of_mem hmem] at hstart
    rw [hstart, Roster.trace_of_some input hp]
    dsimp only
    rw [h.traceFrom_eq, List.singleton_append]

/-! ## The relation fixes the automaton -/

/-- There is only one automaton that represents a given roster. -/
theorem unique {b : Automaton} (ha : Represents a r) (hb : Represents b r) : a = b := by
  have hindex : a.index = b.index := by
    apply Std.ExtTreeMap.ext_getElem?
    intro name
    exact (ha.stateId?_eq name).trans (hb.stateId?_eq name).symm
  have hstates : a.states = b.states := by
    apply Array.ext
    · exact ha.size_eq.trans hb.size_eq.symm
    · -- the states at any place are both described by the name at that place
      intro i hia hib
      have hlt : i < r.names.length := Nat.lt_of_lt_of_eq hia ha.size_eq
      have hid := r.idOf_getElem ⟨i, Nat.lt_of_lt_of_le hlt r.length_le⟩ hlt
      obtain ⟨s, hs, hsp⟩ := ha.get?_idOf _ (List.getElem_mem hlt)
      obtain ⟨t, ht, htp⟩ := hb.get?_idOf _ (List.getElem_mem hlt)
      rw [hid] at hs ht
      obtain ⟨_, rfl⟩ := Automaton.get?_eq_some_iff.mp hs
      obtain ⟨_, rfl⟩ := Automaton.get?_eq_some_iff.mp ht
      exact hsp.unique htp
  have hstart : a.start = b.start := ha.start_eq.trans hb.start_eq.symm
  cases a
  cases b
  exact (Automaton.mk.injEq ..).mpr ⟨hstates, hindex, hstart⟩

end Represents

/-! ## Main result -/

theorem represents_after (edits : List Edit) :
    Represents (Automaton.empty.after edits) (Roster.empty.after edits) :=
  Represents.empty.after edits

/-- Automata refine rosters.  After any calls, refused ones included, the automaton represents the
    roster that the same calls lead to, and it is the only one that does; whatever call comes next
    gets the same answer from both; and both give the same verdict and the same trace on every
    input. -/
theorem editing_refines_roster (edits : List Edit) :
    Represents (Automaton.empty.after edits) (Roster.empty.after edits) ∧
      (∀ b, Represents b (Roster.empty.after edits) → b = Automaton.empty.after edits) ∧
      (∀ edit, ((Automaton.empty.after edits).perform edit).1 =
        ((Roster.empty.after edits).perform edit).1) ∧
      ∀ input, (Automaton.empty.after edits).run input = (Roster.empty.after edits).run input ∧
        (Automaton.empty.after edits).trace input = (Roster.empty.after edits).trace input := by
  have h := represents_after edits
  refine ⟨h, fun b hb => hb.unique h, fun edit => (h.perform edit).1, fun input => ?_⟩
  exact ⟨h.run_eq input, h.trace_eq input⟩

end Acceptor
