import Acceptor.Proofs.Automaton.OneLine

/-!
# The course of a run

A run consumes symbols as long as there are edges for them and passes from state to state, until the
input is used up or the next symbol has no edge.  A `Course` is such a way through an automaton; the
conditions that make it one are fields of the structure.  Every input has a course from every state,
and a trace tells exactly the course of its run: where it starts, the edges it takes one by one, and
how it ends.

* `events_traceFrom`     the events of a trace, without the accumulator
* `Course.follow?_eq`    where a run along a course ends
* `exists_course`        every input has a course, and the events tell it
* `trace_tells_course`   the events of a whole run, and its verdict
-/

namespace Acceptor

namespace Automaton

variable {a : Automaton} {q r : StateId}

/-- What happens in a run from `q` on, when `cs` comes next and stands at byte offset `position`. -/
def eventsFrom (a : Automaton) (q : StateId) (position : Nat) : List Char → List RunEvent
  | [] => [.finished q (a.isAccepting q)]
  | c :: cs =>
    match a.step q c with
    | some r => .consumed q c r :: a.eventsFrom r (position + c.utf8Size) cs
    | none => [.stuck q c position]

theorem eventsFrom_cons_of_some {c : Char} (h : a.step q c = some r) (position : Nat)
    (cs : List Char) :
    a.eventsFrom q position (c :: cs) =
      .consumed q c r :: a.eventsFrom r (position + c.utf8Size) cs := by
  rw [eventsFrom, h]

theorem eventsFrom_cons_of_none {c : Char} (h : a.step q c = none) (position : Nat)
    (cs : List Char) : a.eventsFrom q position (c :: cs) = [.stuck q c position] := by
  rw [eventsFrom, h]

/-- A trace that goes on adds its events behind those it has. -/
theorem events_traceFrom (a : Automaton) (events : Array RunEvent) (q : StateId) (position : Nat)
    (cs : List Char) :
    (a.traceFrom events q position cs).events = events.toList ++ a.eventsFrom q position cs := by
  induction cs generalizing events q position with
  | nil => simp [traceFrom, eventsFrom]
  | cons c cs ih =>
    rw [traceFrom, eventsFrom]
    cases a.step q c with
    | none => simp
    | some r => simp [ih]

/-- The trace of a run. -/
theorem trace_of_start {input : String} (h : a.start = some q) :
    a.trace input =
      .ok ⟨.started q :: a.eventsFrom q 0 input.toList,
        (a.follow? q input.toList).any a.isAccepting⟩ := by
  have hevents : (a.traceFrom #[.started q] q 0 input.toList).events =
      .started q :: a.eventsFrom q 0 input.toList :=
    a.events_traceFrom #[.started q] q 0 input.toList
  simp only [trace, h]
  rw [← hevents, ← a.accepted_traceFrom #[.started q] q 0 input.toList]

/-! ## Courses -/

/-- The way that a run of `a` from `q` on `input` takes. -/
structure Course (a : Automaton) (q : StateId) (input : List Char) where
  /-- The symbols that are consumed. -/
  consumed : List Char
  /-- The symbols that are left over. -/
  rest : List Char
  input_eq : input = consumed ++ rest
  /-- The state after each number of symbols. -/
  path : Nat → StateId
  path_zero : path 0 = q
  step_path : ∀ i c, consumed[i]? = some c → a.step (path i) c = some (path (i + 1))
  /-- If a symbol is left over, it has no edge. -/
  step_rest : ∀ c more, rest = c :: more → a.step (path consumed.length) c = none

namespace Course

variable {input : List Char}

/-- The state in which the run ends. -/
def last (way : a.Course q input) : StateId := way.path way.consumed.length

/-- The edges on the way as events: each one leaves the state that the one before has entered. -/
def edges (way : a.Course q input) : List RunEvent :=
  way.consumed.mapIdx fun i c => .consumed (way.path i) c (way.path (i + 1))

/-- How the run ends if its input stands at byte offset `position`: it is finished if no symbol is
    left over, and else stuck at the first one that is, behind the consumed ones. -/
def ending (way : a.Course q input) (position : Nat) : RunEvent :=
  match way.rest with
  | [] => .finished way.last (a.isAccepting way.last)
  | c :: _ => .stuck way.last c (position + Text.byteLength way.consumed)

/-- The course on no input. -/
def nil (a : Automaton) (q : StateId) : a.Course q [] where
  consumed := []
  rest := []
  input_eq := rfl
  path _ := q
  path_zero := rfl
  step_path := by simp
  step_rest := by simp

/-- The course on an input whose first symbol has no edge. -/
def stuck {c : Char} (h : a.step q c = none) (cs : List Char) : a.Course q (c :: cs) where
  consumed := []
  rest := c :: cs
  input_eq := rfl
  path _ := q
  path_zero := rfl
  step_path := by simp
  step_rest := by
    intro d more heq
    obtain ⟨rfl, rfl⟩ := List.cons.inj heq
    exact h

/-- A course behind an edge. -/
def cons {c : Char} {cs : List Char} (h : a.step q c = some r) (way : a.Course r cs) :
    a.Course q (c :: cs) where
  consumed := c :: way.consumed
  rest := way.rest
  input_eq := congrArg (c :: ·) way.input_eq
  path i :=
    match i with
    | 0 => q
    | i + 1 => way.path i
  path_zero := rfl
  step_path i d hd := by
    cases i with
    | zero =>
      obtain rfl : c = d := by simpa using hd
      show a.step q c = some (way.path 0)
      rw [way.path_zero, h]
    | succ i => exact way.step_path i d (by simpa using hd)
  step_rest := way.step_rest

@[simp] theorem length_edges (way : a.Course q input) : way.edges.length = way.consumed.length :=
  List.length_mapIdx

theorem edges_cons {c : Char} {cs : List Char} (h : a.step q c = some r) (way : a.Course r cs) :
    (cons h way).edges = .consumed q c r :: way.edges := by
  have hedges : (cons h way).edges = .consumed q c (way.path 0) :: way.edges :=
    List.mapIdx_cons
  rw [hedges, way.path_zero]

theorem ending_cons {c : Char} {cs : List Char} (h : a.step q c = some r) (way : a.Course r cs)
    (position : Nat) : (cons h way).ending position = way.ending (position + c.utf8Size) := by
  have hlast : (cons h way).last = way.last := rfl
  have hlength : position + Text.byteLength (cons h way).consumed =
      position + c.utf8Size + Text.byteLength way.consumed := by
    rw [Nat.add_assoc, ← Text.byteLength_cons]
    rfl
  simp only [ending]
  rw [hlast, hlength]
  rfl

/-- The input begins with the consumed symbols. -/
theorem take_eq (way : a.Course q input) {n : Nat} (hn : n ≤ way.consumed.length) :
    input.take n = way.consumed.take n :=
  (congrArg (List.take n) way.input_eq).trans (List.take_append_of_le_length hn)

theorem length_consumed_le (way : a.Course q input) : way.consumed.length ≤ input.length := by
  have hlength := congrArg List.length way.input_eq
  rw [List.length_append] at hlength
  omega

theorem drop_length_consumed (way : a.Course q input) :
    input.drop way.consumed.length = way.rest :=
  (congrArg (List.drop way.consumed.length) way.input_eq).trans List.drop_left

/-- The consumed symbols lead along the path. -/
theorem follow?_take (way : a.Course q input) {n : Nat} (hn : n ≤ way.consumed.length) :
    a.follow? q (input.take n) = some (way.path n) := by
  rw [way.take_eq hn]
  induction n with
  | zero => rw [List.take_zero, follow?_nil, way.path_zero]
  | succ n ih =>
    have hsymbol : way.consumed[n]? = some way.consumed[n] := List.getElem?_eq_getElem hn
    rw [List.take_add_one, hsymbol, Option.toList_some, follow?_append, ih (Nat.le_of_lt hn),
      Option.bind_some, follow?_cons, way.step_path n _ hsymbol]
    rfl

theorem follow?_consumed (way : a.Course q input) : a.follow? q way.consumed = some way.last := by
  have htake := way.follow?_take (Nat.le_refl _)
  rw [way.take_eq (Nat.le_refl _), List.take_length] at htake
  exact htake

/-- All symbols have an edge exactly if the course leaves none over. -/
theorem follow?_eq (way : a.Course q input) :
    a.follow? q input = if way.rest = [] then some way.last else none := by
  have hfollow : a.follow? q input = a.follow? q (way.consumed ++ way.rest) :=
    congrArg (a.follow? q) way.input_eq
  rw [hfollow, follow?_append, follow?_consumed, Option.bind_some]
  cases hrest : way.rest with
  | nil => rfl
  | cons c more =>
    rw [follow?_cons, last, way.step_rest c more hrest]
    rfl

end Course

/-- Every input has a course.  It is the one that the events of a run tell, and the run ends where
    the course does. -/
theorem exists_course (a : Automaton) (q : StateId) (cs : List Char) :
    ∃ way : a.Course q cs,
      (∀ position, a.eventsFrom q position cs = way.edges ++ [way.ending position]) ∧
        a.advance q cs = (way.last, way.rest) := by
  induction cs generalizing q with
  | nil => exact ⟨.nil a q, fun position => rfl, rfl⟩
  | cons c cs ih =>
    rw [advance]
    cases hstep : a.step q c with
    | none => exact ⟨.stuck hstep cs, fun position => eventsFrom_cons_of_none hstep position cs, rfl⟩
    | some r =>
      -- the course behind this symbol is continued to the front
      obtain ⟨way, hevents, hadvance⟩ := ih r
      refine ⟨.cons hstep way, fun position => ?_, hadvance⟩
      rw [eventsFrom_cons_of_some hstep, hevents, Course.edges_cons, Course.ending_cons,
        List.cons_append]

/-- A run consumes the symbols of its course. -/
theorem consumed_eq {input : String} (h : a.start = some q) {way : a.Course q input.toList}
    (hadvance : a.advance q input.toList = (way.last, way.rest)) :
    a.consumed input = way.consumed.length := by
  -- the run counts what it leaves over
  have hlength := congrArg List.length way.input_eq
  rw [String.length_toList, List.length_append] at hlength
  simp only [consumed, h]
  rw [hadvance]
  dsimp only
  omega

end Automaton

/-! ## Main result -/

/-- The shape of a trace.  Without a start nothing happens.  With one, there is a course on the
    input, of as many symbols as the run consumes, and the trace consists of its beginning in the
    start, of the edges of the course in their order, and of its ending.  The verdict is that the
    input is accepted exactly if this ending is to be finished in an accepting state, and a run
    without a trace gives the same verdict. -/
theorem trace_tells_course (edits : List Edit) (input : String) :
    let a := Automaton.empty.after edits
    (a.start = none → a.trace input = .error .missingStart ∧ a.run input = .error .missingStart) ∧
      ∀ q, a.start = some q → ∃ (way : a.Course q input.toList) (trace : Trace),
        a.trace input = .ok trace ∧
        trace.events = .started q :: way.edges ++ [way.ending 0] ∧
        way.consumed.length = a.consumed input ∧
        (trace.accepted = true ↔ ∃ r, trace.events.getLast? = some (.finished r true)) ∧
        a.run input = .ok trace.accepted := by
  intro a
  refine ⟨fun h => ⟨Automaton.trace_of_no_start h input, Automaton.run_of_no_start input h⟩,
    fun q hq => ?_⟩
  obtain ⟨way, hevents, hadvance⟩ := a.exists_course q input.toList
  refine ⟨way, _, Automaton.trace_of_start hq, ?_, (Automaton.consumed_eq hq hadvance).symm, ?_,
    Automaton.run_of_start input hq⟩
  · rw [hevents, List.cons_append]
  · -- the run accepts if nothing is left over and it ends in an accepting state
    dsimp only
    rw [hevents, ← List.cons_append, List.getLast?_concat, way.follow?_eq]
    cases hrest : way.rest with
    | nil => simp [Automaton.Course.ending, hrest]
    | cons c more => simp [Automaton.Course.ending, hrest]

end Acceptor
