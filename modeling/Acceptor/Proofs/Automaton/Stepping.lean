import Acceptor.Proofs.Automaton.Course

/-!
# Stepping agrees with running

A run can be driven step by step, stopped anywhere, or driven on after it was decided.  Each step
consumes the next symbol of the course until there is none, the step after that decides, and all
further steps change nothing.  So the first steps report the first events of the trace.

* `events_running`   what the first steps report
* `after_running`    steps along the course
* `step_stopped`     the step that decides
* `stepping_agrees`  any number of steps
-/

namespace Acceptor

namespace Simulator

variable {a : Automaton} {q r : StateId} {cs : List Char} {s : Simulator} {v : Verdict}

/-- What a step answers: the decision, or nothing while there is none. -/
def answer (s : Simulator) : Option Verdict := s.step.2.verdict?

/-- What the first `n` steps report. -/
def events (s : Simulator) : Nat → List RunEvent
  | 0 => []
  | n + 1 => s.step.1.toList ++ s.step.2.events n

theorem after_succ (s : Simulator) (n : Nat) : s.after (n + 1) = (s.after n).step.2 := by
  induction n generalizing s with
  | zero => rfl
  | succ n ih => exact ih s.step.2

theorem after_add (s : Simulator) (m n : Nat) : s.after (m + n) = (s.after m).after n := by
  induction n with
  | zero => rfl
  | succ n ih => rw [← Nat.add_assoc, after_succ, after_succ, ih]

/-! ## Decided runs -/

/-- The run with a decision. -/
def decided (s : Simulator) (v : Verdict) : Simulator := { s with verdict? := some v }

@[simp] theorem step_decided (s : Simulator) (v : Verdict) :
    (s.decided v).step = (none, s.decided v) := rfl

@[simp] theorem after_decided (s : Simulator) (v : Verdict) (n : Nat) :
    (s.decided v).after n = s.decided v := by
  induction n with
  | zero => rfl
  | succ n ih => rw [after_succ, ih, step_decided]

@[simp] theorem events_decided (s : Simulator) (v : Verdict) (n : Nat) :
    (s.decided v).events n = [] := by
  induction n with
  | zero => rfl
  | succ n ih => exact ih

/-! ## Runs under way -/

/-- A run that goes on in state `q`, where `cs` comes next and stands at byte offset `position`. -/
def running (a : Automaton) (q : StateId) (position : Nat) (cs : List Char) : Simulator :=
  { automaton := a, state := q, position, rest := cs, verdict? := none }

theorem simulate_of_start {input : String} (h : a.start = some q) :
    a.simulate input = .ok (running a q 0 input.toList) := by
  simp only [Automaton.simulate]
  rw [h]
  rfl

theorem step_running_nil (a : Automaton) (q : StateId) (position : Nat) :
    (running a q position []).step =
      (some (.finished q (a.isAccepting q)),
        (running a q position []).decided
          (if a.isAccepting q then .accept q else .reject q)) := rfl

theorem step_running_of_some {c : Char} (h : a.step q c = some r) (position : Nat)
    (cs : List Char) :
    (running a q position (c :: cs)).step =
      (some (.consumed q c r), running a r (position + c.utf8Size) cs) := by
  simp only [step, running]
  rw [h]

theorem step_running_of_none {c : Char} (h : a.step q c = none) (position : Nat)
    (cs : List Char) :
    (running a q position (c :: cs)).step =
      (some (.stuck q c position), (running a q position (c :: cs)).decided (.reject q)) := by
  simp only [step, running]
  rw [h]
  rfl

/-- The first steps report what happens first in the run. -/
theorem events_running (a : Automaton) (q : StateId) (position : Nat) (cs : List Char) (n : Nat) :
    (running a q position cs).events n = (a.eventsFrom q position cs).take n := by
  induction cs generalizing q position n with
  | nil =>
    cases n with
    | zero => rfl
    | succ n => simp [events, step_running_nil, Automaton.eventsFrom]
  | cons c cs ih =>
    cases n with
    | zero => rfl
    | succ n =>
      cases hstep : a.step q c with
      | none =>
        -- being stuck is the last event, and decided runs report nothing
        rw [Automaton.eventsFrom_cons_of_none hstep]
        simp [events, step_running_of_none hstep]
      | some r =>
        rw [Automaton.eventsFrom_cons_of_some hstep, List.take_succ_cons, ← ih]
        simp [events, step_running_of_some hstep]

/-- As long as the course goes on, each step consumes a symbol. -/
theorem after_running (way : a.Course q cs) (position : Nat) {n : Nat}
    (hn : n ≤ way.consumed.length) :
    (running a q position cs).after n =
      running a (way.path n) (position + Text.byteLength (cs.take n)) (cs.drop n) := by
  induction n with
  | zero =>
    rw [way.path_zero]
    rfl
  | succ n ih =>
    -- the next symbol of the course is the next one of the input
    obtain ⟨c, hc⟩ : ∃ c, way.consumed[n]? = some c := ⟨_, List.getElem?_eq_getElem hn⟩
    have hcs : cs[n]? = some c := by
      rw [way.input_eq, List.getElem?_append_left hn, hc]
    have hdrop : cs.drop n = c :: cs.drop (n + 1) := by
      obtain ⟨hlt, rfl⟩ := List.getElem?_eq_some_iff.mp hcs
      exact List.drop_eq_getElem_cons hlt
    rw [after_succ, ih (Nat.le_of_lt hn), hdrop, step_running_of_some (way.step_path n c hc),
      List.take_add_one, hcs]
    simp [Nat.add_assoc]

/-- The step behind the course decides, and the decision is the one of the run. -/
theorem step_stopped (way : a.Course q cs) (position : Nat) :
    ∃ v : Verdict, v.state = way.last ∧ v.accepts = (a.follow? q cs).any a.isAccepting ∧
      (running a way.last position way.rest).step.2 =
        (running a way.last position way.rest).decided v := by
  rw [way.follow?_eq]
  cases hrest : way.rest with
  | nil =>
    refine ⟨if a.isAccepting way.last then .accept way.last else .reject way.last, ?_, ?_, rfl⟩
    · split <;> rfl
    · rw [if_pos rfl, Option.any_some]
      cases a.isAccepting way.last <;> rfl
  | cons c more =>
    have hstep : a.step way.last c = none := way.step_rest c more hrest
    exact ⟨.reject way.last, rfl, rfl, congrArg Prod.snd (step_running_of_none hstep position more)⟩

/-- Behind the course the run is decided, and stays so. -/
theorem after_course (way : a.Course q cs) (position : Nat) :
    ∃ v : Verdict, v.state = way.last ∧ v.accepts = (a.follow? q cs).any a.isAccepting ∧
      ∀ n, way.consumed.length < n → (running a q position cs).after n =
        (running a way.last (position + Text.byteLength way.consumed) way.rest).decided v := by
  obtain ⟨v, hstate, haccepts, hstep⟩ :=
    step_stopped way (position + Text.byteLength way.consumed)
  refine ⟨v, hstate, haccepts, fun n hn => ?_⟩
  -- all symbols of the course, then the step that decides, then any number of further ones
  have hend := after_running way position (Nat.le_refl _)
  rw [way.take_eq (Nat.le_refl _), List.take_length, way.drop_length_consumed] at hend
  obtain ⟨more, rfl⟩ := Nat.exists_eq_add_of_lt hn
  rw [Nat.add_right_comm, after_add, after_succ, hend]
  exact (congrArg (after · more) hstep).trans (after_decided _ v more)

/-- The position and the state after any number of steps are those behind as many symbols, as far
    as the course goes. -/
theorem place_after (way : a.Course q cs) (position n : Nat) :
    ((running a q position cs).after n).position =
        position + Text.byteLength (cs.take (min n way.consumed.length)) ∧
      ((running a q position cs).after n).state = way.path (min n way.consumed.length) := by
  by_cases hn : n ≤ way.consumed.length
  · rw [after_running way position hn, Nat.min_eq_left hn]
    exact ⟨rfl, rfl⟩
  · obtain ⟨v, -, -, hbehind⟩ := after_course way position
    rw [hbehind n (Nat.lt_of_not_le hn), Nat.min_eq_right (Nat.le_of_not_le hn),
      way.take_eq (Nat.le_refl _), List.take_length]
    exact ⟨rfl, rfl⟩

/-- On the way steps answer nothing, and behind it they answer the decision. -/
theorem answer_after (way : a.Course q cs) (position : Nat)
    (hbehind : ∀ n, way.consumed.length < n → (running a q position cs).after n = s.decided v)
    (n : Nat) :
    ((running a q position cs).after n).answer =
      if n < way.consumed.length then none else some v := by
  -- the answer of a step is the decision that stands after it
  have hanswer : ((running a q position cs).after n).answer =
      ((running a q position cs).after (n + 1)).verdict? := by
    rw [after_succ]
    rfl
  rw [hanswer]
  split
  · next hn =>
    rw [after_running way position hn]
    rfl
  · next hn =>
    rw [hbehind (n + 1) (by omega)]
    rfl

end Simulator

/-! ## Main result -/

/-- Stepping agrees with running, and decisions are final.  Without a start there is nothing to
    step through.  With one, and with `k` for the number of symbols that the run consumes, the first
    `k` steps answer nothing and the next one answers with the verdict of the run and the state it
    has reached; a step for each symbol and one more are enough for that.  Every later step gives
    the same answer, reports nothing and leaves everything as it is.

    After any number `m` of steps, the position and the state are those behind the first `min m k`
    symbols, and what was reported are the first `min m (k + 1)` events of the trace behind its
    beginning, which has `k + 1` of them. -/
theorem stepping_agrees (edits : List Edit) (input : String) :
    let a := Automaton.empty.after edits
    let k := a.consumed input
    (a.start = none → a.simulate input = .error .missingStart) ∧
      ∀ q, a.start = some q → ∃ s trace told v,
        a.simulate input = .ok s ∧
        a.trace input = .ok trace ∧ trace.events = .started q :: told ∧ told.length = k + 1 ∧
        a.run input = .ok v.accepts ∧
        a.follow? q (input.toList.take k) = some v.state ∧
        (s.after input.length).answer = some v ∧
        ∀ m,
          (s.after m).answer = (if m < k then none else some v) ∧
          (k < m → (s.after m).step = (none, s.after m)) ∧
          (s.after m).position = Text.byteLength (input.toList.take (min m k)) ∧
          a.follow? q (input.toList.take (min m k)) = some (s.after m).state ∧
          s.events m = told.take (min m (k + 1)) := by
  intro a k
  refine ⟨fun h => by simp only [Automaton.simulate, h], fun q hq => ?_⟩
  obtain ⟨way, hevents, hadvance⟩ := a.exists_course q input.toList
  have hk : k = way.consumed.length := Automaton.consumed_eq hq hadvance
  have hlength : (a.eventsFrom q 0 input.toList).length = k + 1 := by
    rw [hevents, List.length_append, way.length_edges, hk, List.length_singleton]
  obtain ⟨v, hstate, haccepts, hbehind⟩ := Simulator.after_course way 0
  have hanswer := Simulator.answer_after way 0 hbehind
  rw [← hk] at hbehind hanswer
  refine ⟨_, _, _, v, Simulator.simulate_of_start hq, Automaton.trace_of_start hq, rfl, hlength,
    ?_, ?_, ?_, fun m => ⟨hanswer m, fun hm => ?_, ?_, ?_, ?_⟩⟩
  · rw [Automaton.run_of_start input hq, haccepts]
  · rw [hstate, hk]
    exact way.follow?_take (Nat.le_refl _)
  · have hle := way.length_consumed_le
    rw [String.length_toList, ← hk] at hle
    rw [hanswer, if_neg (Nat.not_lt.mpr hle)]
  · rw [hbehind m hm, Simulator.step_decided]
  · rw [(Simulator.place_after way 0 m).1, Nat.zero_add, hk]
  · rw [(Simulator.place_after way 0 m).2, hk]
    exact way.follow?_take (Nat.min_le_right _ _)
  · rw [Simulator.events_running, ← hlength, List.take_eq_take_min]

end Acceptor
