import Mathlib.Data.List.Basic
import Acceptor.Automaton.Trace
import Acceptor.Proofs.Automaton.Edit

/-!
# Automata told by names

A `Roster` is an automaton as its user thinks of it: there are no ids and no array, only names.
It lists the names in the order in which they were first registered, and everything else is said
about names: which of them accept, where the edge on a symbol leads, which one is the start.  The
conditions that tie these parts together are fields of the structure, so a roster with a dangling
edge, a name listed twice or more names than there are ids cannot be written down.

The editing operations on rosters are the rules by which automata are edited; the only place where
ids come in is the answers, and there the id of a name is its place in the list.  Runs follow edges
from name to name.
-/

namespace Acceptor

/-- An automaton told by the names of its states. -/
structure Roster where
  /-- The names of the states, in the order of registration. -/
  names : List String
  /-- Which names accept. -/
  accepting : String → Bool
  /-- Where the edge on a symbol leads. -/
  edge : String → Char → Option String
  start : Option String
  names_nodup : names.Nodup
  length_le : names.length ≤ stateLimit
  edge_mem : ∀ {p c q}, edge p c = some q → p ∈ names ∧ q ∈ names
  start_mem : ∀ {p}, start = some p → p ∈ names

namespace Roster

/-! ## The place of a name -/

/-- The id of a registered name is its place in the list. -/
def idOf (r : Roster) (name : String) (h : name ∈ r.names) : StateId :=
  ⟨r.names.idxOf name, Nat.lt_of_lt_of_le (List.idxOf_lt_length_of_mem h) r.length_le⟩

/-- The id of a name, if it is registered. -/
def idOf? (r : Roster) (name : String) : Option StateId :=
  if h : name ∈ r.names then some (r.idOf name h) else none

theorem idOf?_of_mem {r : Roster} {name : String} (h : name ∈ r.names) :
    r.idOf? name = some (r.idOf name h) :=
  dif_pos h

theorem idOf?_of_not_mem {r : Roster} {name : String} (h : name ∉ r.names) : r.idOf? name = none :=
  dif_neg h

theorem idOf_lt (r : Roster) (name : String) (h : name ∈ r.names) :
    (r.idOf name h).index < r.names.length :=
  List.idxOf_lt_length_of_mem h

/-- A name stands at the place that its id says. -/
theorem getElem?_idOf (r : Roster) (name : String) (h : name ∈ r.names) :
    r.names[(r.idOf name h).index]? = some name :=
  List.getElem?_idxOf h

/-- The name at a place has that place as its id. -/
theorem idOf_getElem (r : Roster) (i : StateId) (h : i.index < r.names.length) :
    r.idOf r.names[i.index] (List.getElem_mem h) = i :=
  StateId.ext (r.names_nodup.idxOf_getElem i.index h)

/-- Different names have different ids. -/
theorem idOf_inj {r : Roster} {p q : String} {hp : p ∈ r.names} {hq : q ∈ r.names}
    (h : r.idOf p hp = r.idOf q hq) : p = q := by
  have hpq := r.getElem?_idOf p hp
  rw [h, r.getElem?_idOf q hq] at hpq
  exact (Option.some.inj hpq).symm

/-- Looking a name up and reading the list at a place are inverse to each other. -/
theorem idOf?_eq_some_iff {r : Roster} {name : String} {i : StateId} :
    r.idOf? name = some i ↔ r.names[i.index]? = some name := by
  constructor
  · intro h
    by_cases hname : name ∈ r.names
    · rw [idOf?_of_mem hname, Option.some_inj] at h
      rw [← h, r.getElem?_idOf]
    · rw [idOf?_of_not_mem hname] at h
      exact nomatch h
  · intro h
    obtain ⟨hi, rfl⟩ := List.getElem?_eq_some_iff.mp h
    rw [idOf?_of_mem (List.getElem_mem hi), r.idOf_getElem i hi]

/-! ## Editing -/

/-- The roster without names. -/
def empty : Roster where
  names := []
  accepting _ := false
  edge _ _ := none
  start := none
  names_nodup := List.nodup_nil
  length_le := Nat.zero_le _
  edge_mem h := nomatch h
  start_mem h := nomatch h

/-- A registered name gets a new flag and loses the edges that lead out of it.  Edges into it and
    the start stay. -/
def reset (r : Roster) (name : String) (accepting : Bool) : Roster where
  names := r.names
  accepting p := if p = name then accepting else r.accepting p
  edge p c := if p = name then none else r.edge p c
  start := r.start
  names_nodup := r.names_nodup
  length_le := r.length_le
  edge_mem h := by
    split at h
    · exact nomatch h
    · exact r.edge_mem h
  start_mem := r.start_mem

/-- A new name is listed behind the others. -/
def register (r : Roster) (name : String) (accepting : Bool) (hname : name ∉ r.names)
    (hroom : r.names.length < stateLimit) : Roster where
  names := r.names ++ [name]
  accepting p := if p = name then accepting else r.accepting p
  edge := r.edge
  start := r.start
  names_nodup := List.nodup_append.mpr
    ⟨r.names_nodup, by simp, fun p hp q hq h => hname (List.mem_singleton.mp hq ▸ h ▸ hp)⟩
  length_le := by rw [List.length_append, List.length_singleton]; exact hroom
  edge_mem h := ⟨List.mem_append_left _ (r.edge_mem h).1, List.mem_append_left _ (r.edge_mem h).2⟩
  start_mem h := List.mem_append_left _ (r.start_mem h)

/-- Registering a name changes no other name's id. -/
theorem idOf?_register (r : Roster) (name : String) (accepting : Bool) (hname : name ∉ r.names)
    (hroom : r.names.length < stateLimit) (p : String) :
    (r.register name accepting hname hroom).idOf? p =
      if p = name then some ⟨r.names.length, hroom⟩ else r.idOf? p := by
  by_cases hp : p = name
  · -- the new name stands behind all others
    subst hp
    rw [if_pos rfl, idOf?_eq_some_iff]
    exact List.getElem?_concat_length
  · -- no other name has moved
    rw [if_neg hp]
    by_cases hmem : p ∈ r.names
    · rw [idOf?_of_mem hmem, idOf?_eq_some_iff]
      have hlt := r.idOf_lt p hmem
      exact (List.getElem?_append_left hlt).trans (r.getElem?_idOf p hmem)
    · rw [idOf?_of_not_mem hmem, idOf?_of_not_mem]
      intro h
      rcases List.mem_append.mp h with h | h
      · exact hmem h
      · exact hp (List.mem_singleton.mp h)

/-- The edge on `symbol` out of `source` leads to `target`, wherever it led before. -/
def connect (r : Roster) (source : String) (symbol : Char) (target : String)
    (hsource : source ∈ r.names) (htarget : target ∈ r.names) : Roster where
  names := r.names
  accepting := r.accepting
  edge p c := if p = source ∧ c = symbol then some target else r.edge p c
  start := r.start
  names_nodup := r.names_nodup
  length_le := r.length_le
  edge_mem h := by
    split at h
    · next hpc => exact ⟨hpc.1 ▸ hsource, Option.some.inj h ▸ htarget⟩
    · exact r.edge_mem h
  start_mem := r.start_mem

/-- Adds a name, or resets it if it is registered; a full roster takes no new name. -/
def addState (r : Roster) (name : String) (accepting : Bool) : Except BuildError Added × Roster :=
  if h : name ∈ r.names then (.ok (.replaced (r.idOf name h)), r.reset name accepting)
  else if hroom : r.names.length < stateLimit then
    (.ok (.fresh ⟨r.names.length, hroom⟩), r.register name accepting h hroom)
  else (.error .tooManyStates, r)

/-- Leads an edge from one registered name to another.  If a name is not registered, the first such
    one is named and nothing changes. -/
def addTransition (r : Roster) (source : String) (symbol : Char) (target : String) :
    Except BuildError (Option StateId) × Roster :=
  if hsource : source ∈ r.names then
    if htarget : target ∈ r.names then
      (.ok ((r.edge source symbol).bind r.idOf?), r.connect source symbol target hsource htarget)
    else (.error (.unknownState target), r)
  else (.error (.unknownState source), r)

/-- Makes a registered name the start; any other name leaves the roster without a start. -/
def setStart (r : Roster) (name : String) : Except BuildError StateId × Roster :=
  if h : name ∈ r.names then
    (.ok (r.idOf name h),
      { r with start := some name, start_mem := fun hp => Option.some.inj hp ▸ h })
  else
    (.error (.unknownState name), { r with start := none, start_mem := fun hp => nomatch hp })

/-- Makes one call. -/
def perform (r : Roster) : Edit → Except BuildError Answer × Roster
  | .addState name accepting => (r.addState name accepting).map (·.map .added) id
  | .addTransition source symbol target =>
    (r.addTransition source symbol target).map (·.map .connected) id
  | .setStart name => (r.setStart name).map (·.map .started) id

/-- The roster after a sequence of calls. -/
def after (r : Roster) (edits : List Edit) : Roster :=
  edits.foldl (fun r edit => (r.perform edit).2) r

/-! ## Running -/

/-- Whether `input` is accepted: the edges for its symbols lead from the start to a name that
    accepts. -/
def run (r : Roster) (input : String) : Except RunError Bool :=
  match r.start with
  | none => .error .missingStart
  | some p =>
    match input.toList.foldlM r.edge p with
    | some q => .ok (r.accepting q)
    | none => .ok false

/-- What happens behind the start of a run: it stands at the name `p`, and `position` bytes of the
    input were read. -/
def traceFrom (r : Roster) (p : String) (hp : p ∈ r.names) (position : Nat) : List Char → Trace
  | [] => ⟨[.finished (r.idOf p hp) (r.accepting p)], r.accepting p⟩
  | c :: cs =>
    match hq : r.edge p c with
    | none => ⟨[.stuck (r.idOf p hp) c position], false⟩
    | some q =>
      let rest := r.traceFrom q (r.edge_mem hq).2 (position + c.utf8Size) cs
      ⟨.consumed (r.idOf p hp) c (r.idOf q (r.edge_mem hq).2) :: rest.events, rest.accepted⟩

theorem traceFrom_of_none {r : Roster} {p : String} {c : Char} (hp : p ∈ r.names) (position : Nat)
    (cs : List Char) (hq : r.edge p c = none) :
    r.traceFrom p hp position (c :: cs) = ⟨[.stuck (r.idOf p hp) c position], false⟩ := by
  simp only [traceFrom]
  split
  · rfl
  · next hsome => exact nomatch hq.symm.trans hsome

theorem traceFrom_of_some {r : Roster} {p q : String} {c : Char} (hp : p ∈ r.names)
    (position : Nat) (cs : List Char) (hq : r.edge p c = some q) :
    r.traceFrom p hp position (c :: cs) =
      ⟨.consumed (r.idOf p hp) c (r.idOf q (r.edge_mem hq).2) ::
          (r.traceFrom q (r.edge_mem hq).2 (position + c.utf8Size) cs).events,
        (r.traceFrom q (r.edge_mem hq).2 (position + c.utf8Size) cs).accepted⟩ := by
  -- only the side that is taken apart is unfolded
  conv_lhs => unfold traceFrom
  split
  · next hnone => exact nomatch hq.symm.trans hnone
  · next q' hsome =>
    obtain rfl : q = q' := Option.some.inj (hq.symm.trans hsome)
    rfl

/-- Runs the roster on `input` and records everything that happens. -/
def trace (r : Roster) (input : String) : Except RunError Trace :=
  match hp : r.start with
  | none => .error .missingStart
  | some p =>
    let rest := r.traceFrom p (r.start_mem hp) 0 input.toList
    .ok ⟨.started (r.idOf p (r.start_mem hp)) :: rest.events, rest.accepted⟩

theorem trace_of_none {r : Roster} (input : String) (hp : r.start = none) :
    r.trace input = .error .missingStart := by
  simp only [trace]
  split
  · rfl
  · next hsome => exact nomatch hp.symm.trans hsome

theorem trace_of_some {r : Roster} {p : String} (input : String) (hp : r.start = some p) :
    r.trace input =
      .ok ⟨.started (r.idOf p (r.start_mem hp)) ::
          (r.traceFrom p (r.start_mem hp) 0 input.toList).events,
        (r.traceFrom p (r.start_mem hp) 0 input.toList).accepted⟩ := by
  simp only [trace]
  split
  · next hnone => exact nomatch hp.symm.trans hnone
  · next p' hsome =>
    obtain rfl : p = p' := Option.some.inj (hp.symm.trans hsome)
    rfl

end Roster

end Acceptor
