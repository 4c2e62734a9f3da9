import Acceptor.Automaton.Table
import Acceptor.Automaton.Trace
import Acceptor.Proofs.Automaton.ExtendedStep
import Acceptor.Proofs.Text.OneLine

/-!
# Events and tables, line by line

If no name of a state has a line feed, and none is a symbol of an edge, then everything that is said
about a run or shown in a table stays on the line it is written on: quoting a symbol escapes line
feeds, and the rest is made of names, symbols and fixed text.

A run has one event for each symbol that it consumes, one for its beginning and one for its end.

* `Automaton.OneLine.describe`     an event in words
* `Automaton.OneLine.tableLines`   the lines of the table
* `Automaton.exists_trace`         the number of events, and the verdict
-/

namespace Acceptor

/-- No line feed is in the name of a state or is the symbol of an edge. -/
structure Automaton.OneLine (a : Automaton) : Prop where
  name : ∀ s ∈ a.states, Text.OneLine s.name
  newline_not_mem_alphabet : '\n' ∉ a.alphabet

namespace Automaton.OneLine

variable {a : Automaton}

theorem nameOf (h : a.OneLine) (id : StateId) : Text.OneLine (a.nameOf id) := by
  simp only [Automaton.nameOf]
  cases hs : a.get? id with
  | none => exact (by decide : Text.OneLine "<unknown>")
  | some s => exact h.name s (Array.mem_of_getElem? hs)

/-! ## Events -/

/-- What is said about an event stands on one line. -/
theorem describe (h : a.OneLine) (e : RunEvent) : Text.OneLine (e.describe a) := by
  unfold RunEvent.describe
  cases e with
  | started state =>
    simp only [Text.oneLine_append]
    exact ⟨by decide, h.nameOf state⟩
  | consumed source symbol target =>
    simp only [Text.oneLine_append]
    exact ⟨⟨⟨⟨⟨by decide, h.nameOf source⟩, by decide⟩, Text.oneLine_quoteChar symbol⟩,
      by decide⟩, h.nameOf target⟩
  | stuck state symbol position =>
    simp only [Text.oneLine_append]
    exact ⟨⟨⟨⟨by decide, h.nameOf state⟩, by decide⟩, Text.oneLine_quoteChar symbol⟩, by decide⟩
  | finished state accepted =>
    simp only [Text.oneLine_append]
    refine ⟨⟨by decide, h.nameOf state⟩, ?_⟩
    cases accepted <;> decide

/-! ## The table -/

theorem tableCell {text : String} (htext : Text.OneLine text) (width : Nat) :
    Text.OneLine (Automaton.tableCell width text) := by
  have hbar : Text.OneLine " | " := by decide
  simp [Automaton.tableCell, Text.padRight, htext, hbar, Text.oneLine_blanks]

theorem tableTarget (h : a.OneLine) (s : State) (c : Char) :
    Text.OneLine (a.tableTarget s c) := by
  simp only [Automaton.tableTarget]
  cases s.next? c with
  | none => exact (by decide : Text.OneLine "-")
  | some target => exact h.nameOf target

/-- Every line of the table is a single line. -/
theorem tableLines (h : a.OneLine) : ∀ l ∈ a.tableLines, Text.OneLine l := by
  intro l hl
  simp only [Automaton.tableLines, List.mem_cons, List.mem_filterMap] at hl
  rcases hl with rfl | ⟨id, -, hrow⟩
  · have hcells : ∀ cell ∈ a.alphabet.map fun symbol =>
        Automaton.tableCell a.nameWidth (String.singleton symbol), Text.OneLine cell := by
      intro cell hcell
      obtain ⟨symbol, hsymbol, rfl⟩ := List.mem_map.mp hcell
      refine tableCell (fun hmem => h.newline_not_mem_alphabet ?_) _
      rw [String.toList_singleton, List.mem_singleton] at hmem
      exact hmem ▸ hsymbol
    simp only [Automaton.tableHeader]
    exact Text.oneLine_append.mpr ⟨Text.oneLine_blanks _, Text.oneLine_join hcells⟩
  · obtain ⟨s, hs, rfl⟩ := Option.map_eq_some_iff.mp hrow
    have hcells : ∀ cell ∈ a.alphabet.map fun symbol =>
        Automaton.tableCell a.nameWidth (a.tableTarget s symbol), Text.OneLine cell := by
      intro cell hcell
      obtain ⟨symbol, -, rfl⟩ := List.mem_map.mp hcell
      exact tableCell (h.tableTarget s symbol) _
    have hname : Text.OneLine s.name := h.name s (Array.mem_of_getElem? hs)
    simp only [Automaton.tableRow, Text.padRight, Text.oneLine_append]
    refine ⟨⟨⟨⟨?_, ?_⟩, by decide⟩, hname, Text.oneLine_blanks _⟩, Text.oneLine_join hcells⟩
    · split <;> decide
    · split <;> decide

end Automaton.OneLine

/-! ## Traces -/

namespace Automaton

variable {a : Automaton}

/-- The number of symbols that the run on `input` consumes. -/
def consumed (a : Automaton) (input : String) : Nat :=
  match a.start with
  | none => 0
  | some q => input.length - (a.advance q input.toList).2.length

theorem length_advance_le (a : Automaton) (q : StateId) (cs : List Char) :
    (a.advance q cs).2.length ≤ cs.length := by
  induction cs generalizing q with
  | nil => exact Nat.le_refl _
  | cons c cs ih =>
    rw [advance]
    cases a.step q c with
    | none => exact Nat.le_refl _
    | some r => exact Nat.le_succ_of_le (ih r)

/-- From `q` on, there is an event for each symbol up to the ones left over, and one more. -/
theorem length_events_traceFrom (a : Automaton) (events : Array RunEvent) (q : StateId)
    (position : Nat) (cs : List Char) :
    (a.traceFrom events q position cs).events.length + (a.advance q cs).2.length =
      events.size + cs.length + 1 := by
  induction cs generalizing events q position with
  | nil => simp [traceFrom, advance]
  | cons c cs ih =>
    rw [traceFrom, advance]
    cases a.step q c with
    | none => simp; omega
    | some r =>
      have hrest := ih (events.push (.consumed q c r)) r (position + c.utf8Size)
      rw [Array.size_push] at hrest
      rw [List.length_cons]
      dsimp only
      omega

/-- The verdict is the one of the run. -/
theorem accepted_traceFrom (a : Automaton) (events : Array RunEvent) (q : StateId)
    (position : Nat) (cs : List Char) :
    (a.traceFrom events q position cs).accepted = (a.follow? q cs).any a.isAccepting := by
  induction cs generalizing events q position with
  | nil => rfl
  | cons c cs ih =>
    rw [traceFrom, follow?_cons]
    cases a.step q c with
    | none => rfl
    | some r => exact ih ..

/-- With a start state there is a trace, with an event for each symbol that is consumed, one for the
    beginning and one for the end, and with the verdict of the run. -/
theorem exists_trace {q : StateId} (h : a.start = some q) (input : String) :
    ∃ trace, a.trace input = .ok trace ∧ trace.events.length = a.consumed input + 2 ∧
      a.run input = .ok trace.accepted := by
  have hlength := a.length_events_traceFrom #[.started q] q 0 input.toList
  have hle := a.length_advance_le q input.toList
  have hevents : (#[RunEvent.started q] : Array RunEvent).size = 1 := rfl
  rw [hevents, String.length_toList] at hlength
  rw [String.length_toList] at hle
  have htrace : a.trace input = .ok (a.traceFrom #[.started q] q 0 input.toList) := by
    simp only [trace, h]
  refine ⟨_, htrace, ?_, ?_⟩
  · simp only [consumed, h]
    omega
  · rw [run_of_start input h, accepted_traceFrom]

theorem trace_of_no_start (h : a.start = none) (input : String) :
    a.trace input = .error .missingStart := by
  simp only [trace, h]

end Automaton

end Acceptor
