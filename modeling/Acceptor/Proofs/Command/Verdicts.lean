import Mathlib.Data.List.Forall2
import Acceptor.Command.Run
import Acceptor.Proofs.Command.CommandLine
import Acceptor.Proofs.Description.Ambiguity
import Acceptor.Proofs.Description.OneLine

/-!
# What the command reports

The command has two ways of writing its results and four flags, but what it finds does not depend on
them.  Its verdicts and its exit code are determined by the source and the layout; the flags decide
whether verdicts are written as lines or as a JSON report, whether events come with them, and
whether the table stands in front of them.

* `Loaded.verdicts`       the verdicts on the tests
* `Reports`               how an output shows verdicts
* `reports_output`        the output for a loaded description
* `run_reports`           a run of the command as a whole
-/

namespace Acceptor

/-! ## Lines of a text -/

namespace Command

theorem unlines_cons (l : String) (ls : List String) :
    unlines (l :: ls) = l ++ "\n" ++ unlines ls := by
  simp only [unlines]
  rw [List.map_cons, String.join_cons]

theorem unlines_append (ls ms : List String) : unlines (ls ++ ms) = unlines ls ++ unlines ms := by
  induction ls with
  | nil => simp [unlines]
  | cons l ls ih =>
    rw [List.cons_append, unlines_cons, unlines_cons, ih]
    simp only [String.append_assoc]

/-- Lines are written so that they can be told apart. -/
theorem splitLines_unlines {ls : List String} (h : ∀ l ∈ ls, Text.OneLine l) :
    Text.splitLines (unlines ls) = ls ++ [""] :=
  Text.splitLines_join h

/-- Whatever is written in front of it, an error has a line of its own. -/
theorem exists_splitLines_errorLine (ls : List String) {message : String}
    (hmessage : Text.OneLine message) :
    ∃ front, Text.splitLines (unlines ls ++ errorLine message) =
      front ++ ["error: " ++ message, ""] := by
  have hline : Text.OneLine ("error: " ++ message) :=
    Text.oneLine_append.mpr ⟨by decide, hmessage⟩
  induction ls with
  | nil =>
    refine ⟨[], ?_⟩
    have hempty : Text.splitLines "" = [""] := by rfl
    have herror := Text.splitLines_append_newline ("error: " ++ message) ""
    rw [Text.splitLines_of_oneLine hline, hempty, String.append_empty] at herror
    simpa [unlines, errorLine] using herror
  | cons l ls ih =>
    obtain ⟨front, hfront⟩ := ih
    refine ⟨Text.splitLines l ++ front, ?_⟩
    rw [unlines_cons, String.append_assoc, Text.splitLines_append_newline, hfront,
      List.append_assoc]

end Command

/-! ## Verdicts -/

/-- The tests, each with whether it is accepted, in order; an automaton without a start state has
    no verdicts. -/
def Loaded.verdicts (l : Loaded) : List (String × Bool) :=
  if l.automaton.start.isSome then l.tests.map fun t => (t, l.automaton.run t = .ok true) else []

/-- A verdict in words. -/
def verdictLine (v : String × Bool) : String :=
  "The string '" ++ v.1 ++ "' is " ++ (if v.2 then "accepted" else "rejected") ++ " by the DFA."

theorem TestResult.verdict_eq (result : TestResult) :
    result.verdict = verdictLine (result.input, result.trace.accepted) := rfl

theorem head?_verdictLine (v : String × Bool) : (verdictLine v).toList.head? = some 'T' := by
  unfold verdictLine
  simp

theorem oneLine_verdictLine {v : String × Bool} (h : Text.OneLine v.1) :
    Text.OneLine (verdictLine v) := by
  unfold verdictLine
  simp only [Text.oneLine_append]
  refine ⟨⟨⟨⟨by decide, h⟩, by decide⟩, ?_⟩, by decide⟩
  split <;> decide

/-- The events that are shown with a verdict: all those of the run, which are two more than the
    symbols that it consumes, or none if they are not asked for. -/
def Automaton.Shows (a : Automaton) (trace : Bool) (input : String) (events : List RunEvent) :
    Prop :=
  if trace then
    (∃ accepted, a.trace input = .ok ⟨events, accepted⟩) ∧ events.length = a.consumed input + 2
  else events = []

/-- The lines are those of one verdict: a line for each event that is shown, and the verdict. -/
def Automaton.WritesVerdict (a : Automaton) (trace : Bool) (v : String × Bool)
    (lines : List String) : Prop :=
  ∃ events, a.Shows trace v.1 events ∧
    lines = events.map (fun e => "  " ++ e.describe a) ++ [verdictLine v]

/-- The value of a field of an object. -/
def Json.field? (name : String) : Json → Option Json
  | .object fields => fields.lookup name
  | _ => none

/-- The JSON value is that of one verdict: it has the test, the verdict and the events that are
    shown. -/
def Automaton.EncodesVerdict (a : Automaton) (trace : Bool) (v : String × Bool) (item : Json) :
    Prop :=
  item.field? "input" = some (.string v.1) ∧ item.field? "accepted" = some (.bool v.2) ∧
    ∃ events, a.Shows trace v.1 events ∧
      item.field? "trace" = if trace then some (.list (events.map Json.ofEvent)) else none

/-- The output shows these verdicts on runs of `a` and no others, in the way that is asked for: as
    the results of a JSON report, or as lines, behind the lines of the table if that is asked for,
    none of which is a verdict. -/
def Command.Request.Reports (r : Request) (a : Automaton) (verdicts : List (String × Bool))
    (stdout : String) : Prop :=
  if r.json then
    ∃ report items, stdout = Json.pretty report ++ "\n" ∧
      report.field? "results" = some (.list items) ∧
      List.Forall₂ (a.EncodesVerdict r.trace) verdicts items
  else
    ∃ front blocks, Text.splitLines stdout = front ++ blocks.flatten ++ [""] ∧
      (r.table = false → front = []) ∧ (∀ line ∈ front, ∀ v, line ≠ verdictLine v) ∧
      List.Forall₂ (a.WritesVerdict r.trace) verdicts blocks

/-! ## Results -/

/-- The result is the one behind the verdict. -/
structure Automaton.ResultOf (a : Automaton) (v : String × Bool) (result : TestResult) : Prop where
  input_eq : result.input = v.1
  accepted_eq : result.trace.accepted = v.2
  trace_eq : a.trace v.1 = .ok result.trace
  length_events : result.trace.events.length = a.consumed v.1 + 2

namespace Automaton.ResultOf

variable {a : Automaton} {v : String × Bool} {result : TestResult}

theorem shows (h : a.ResultOf v result) (trace : Bool) :
    a.Shows trace v.1 (if trace then result.trace.events else []) := by
  simp only [Shows]
  split
  · exact ⟨⟨_, h.trace_eq⟩, h.length_events⟩
  · rfl

theorem writesVerdict (h : a.ResultOf v result) (trace : Bool) :
    a.WritesVerdict trace v (result.lines a trace) := by
  refine ⟨_, h.shows trace, ?_⟩
  simp only [TestResult.lines]
  rw [result.verdict_eq, h.input_eq, h.accepted_eq]
  cases trace <;> rfl

theorem encodesVerdict (h : a.ResultOf v result) (trace : Bool) :
    a.EncodesVerdict trace v (Json.ofResult trace result) := by
  refine ⟨?_, ?_, _, h.shows trace, ?_⟩
  · rw [← h.input_eq]
    rfl
  · rw [← h.accepted_eq]
    rfl
  · cases trace <;> rfl

end Automaton.ResultOf

theorem Automaton.resultOf_trace {a : Automaton} {q : StateId} (h : a.start = some q)
    (input : String) :
    ∃ trace, a.trace input = .ok trace ∧
      a.ResultOf (input, a.run input = .ok true) ⟨input, trace⟩ := by
  obtain ⟨trace, htrace, hlength, hrun⟩ := Automaton.exists_trace h input
  refine ⟨trace, htrace, rfl, ?_, htrace, hlength⟩
  rw [hrun]
  simp

theorem Loaded.input_mem_tests {l : Loaded} {result : TestResult} (h : result ∈ l.results) :
    result.input ∈ l.tests := by
  obtain ⟨input, hinput, hresult⟩ := List.mem_filterMap.mp h
  split at hresult
  · obtain rfl := Option.some.inj hresult
    exact hinput
  · exact nomatch hresult

/-- There is one result for each verdict. -/
theorem Loaded.resultOf_results (l : Loaded) :
    List.Forall₂ l.automaton.ResultOf l.verdicts l.results := by
  simp only [verdicts, results]
  cases hstart : l.automaton.start with
  | none =>
    -- no test has a trace
    have hnone : ∀ input, l.automaton.trace input = .error .missingStart :=
      Automaton.trace_of_no_start hstart
    simp [hnone]
  | some q =>
    rw [Option.isSome_some, if_pos rfl]
    induction l.tests with
    | nil => exact .nil
    | cons input tests ih =>
      obtain ⟨trace, htrace, hresult⟩ := Automaton.resultOf_trace hstart input
      rw [List.map_cons, List.filterMap_cons, htrace]
      exact .cons hresult ih

/-! ## The output -/

/-- A row of the table begins with an arrow or with blanks, unlike a verdict. -/
theorem Automaton.ne_verdictLine_of_mem_tableLines {a : Automaton} {line : String}
    (h : line ∈ a.tableLines) (v : String × Bool) : line ≠ verdictLine v := by
  have hhead : line.toList.head? = some ' ' ∨ line.toList.head? = some '-' := by
    simp only [tableLines, List.mem_cons, List.mem_filterMap] at h
    rcases h with rfl | ⟨id, -, hrow⟩
    · refine .inl ?_
      simp [tableHeader, Text.toList_pushn, List.head?_append, List.head?_replicate]
    · obtain ⟨s, -, rfl⟩ := Option.map_eq_some_iff.mp hrow
      simp only [tableRow]
      split
      · exact .inr (by simp)
      · exact .inl (by simp)
  rintro rfl
  rw [head?_verdictLine] at hhead
  simp at hhead

namespace Command

/-- The lines in front of the results. -/
def Request.front (r : Request) (a : Automaton) : List String :=
  if r.table then a.tableLines ++ [""] else []

theorem unlines_front (r : Request) (a : Automaton) :
    unlines (r.front a) = if r.table then a.table ++ "\n" else "" := by
  simp only [Request.front]
  split
  · rw [unlines_append]
    rfl
  · rfl

theorem oneLine_front (r : Request) {a : Automaton} (h : a.OneLine) :
    ∀ line ∈ r.front a, Text.OneLine line := by
  intro line hline
  simp only [Request.front] at hline
  split at hline
  · rcases List.mem_append.mp hline with hline | hline
    · exact h.tableLines line hline
    · rw [List.mem_singleton.mp hline]
      decide
  · exact nomatch hline

theorem front_ne_verdictLine (r : Request) {a : Automaton} {line : String}
    (hline : line ∈ r.front a) (v : String × Bool) : line ≠ verdictLine v := by
  simp only [Request.front] at hline
  split at hline
  · rcases List.mem_append.mp hline with hline | hline
    · exact Automaton.ne_verdictLine_of_mem_tableLines hline v
    · rw [List.mem_singleton.mp hline]
      intro hempty
      have hhead := head?_verdictLine v
      rw [← hempty] at hhead
      exact nomatch hhead
  · exact nomatch hline

/-- Results are written on lines of their own. -/
theorem oneLine_results {l : Loaded} (hautomaton : l.automaton.OneLine)
    (htests : ∀ t ∈ l.tests, Text.OneLine t) (trace : Bool) :
    ∀ line ∈ l.results.flatMap (·.lines l.automaton trace), Text.OneLine line := by
  intro line hline
  obtain ⟨result, hresult, hline⟩ := List.mem_flatMap.mp hline
  have hinput : Text.OneLine result.input := htests _ (Loaded.input_mem_tests hresult)
  simp only [TestResult.lines, List.mem_append, List.mem_singleton] at hline
  rcases hline with hline | rfl
  · split at hline
    · obtain ⟨e, -, rfl⟩ := List.mem_map.mp hline
      exact Text.oneLine_append.mpr ⟨by decide, hautomaton.describe e⟩
    · exact nomatch hline
  · rw [result.verdict_eq]
    exact oneLine_verdictLine hinput

/-- The output for a loaded description shows its verdicts. -/
theorem reports_output (r : Request) (l : Loaded) (hautomaton : l.automaton.OneLine)
    (htests : ∀ t ∈ l.tests, Text.OneLine t) :
    r.Reports l.automaton l.verdicts (output r l) := by
  have hresults := l.resultOf_results
  simp only [Request.Reports, output]
  split
  · -- the report holds the results as JSON values
    refine ⟨_, l.results.map (Json.ofResult r.trace), rfl, rfl, ?_⟩
    rw [List.forall₂_map_right_iff]
    exact hresults.imp fun _ _ hresult => hresult.encodesVerdict r.trace
  · refine ⟨r.front l.automaton, l.results.map (·.lines l.automaton r.trace), ?_, ?_, ?_, ?_⟩
    · have hlines : ∀ line ∈ r.front l.automaton ++ l.results.flatMap (·.lines l.automaton r.trace),
          Text.OneLine line := by
        intro line hline
        rcases List.mem_append.mp hline with hline | hline
        · exact oneLine_front r hautomaton line hline
        · exact oneLine_results hautomaton htests r.trace line hline
      rw [← unlines_front, ← unlines_append, splitLines_unlines hlines, List.flatMap_def]
    · intro htable
      simp only [Request.front]
      rw [htable]
      rfl
    · exact fun line hline v => front_ne_verdictLine r hline v
    · rw [List.forall₂_map_right_iff]
      exact hresults.imp fun _ _ hresult => hresult.writesVerdict r.trace

/-- The last line of the errors says that the start state is missing. -/
theorem exists_splitLines_errors (color : Bool) (r : Request) (source : String) {l : Loaded}
    (hstart : l.automaton.start = none) :
    ∃ front, Text.splitLines (errors color r source l) =
      front ++ ["error: automaton has no start state", ""] := by
  have hdiagnostics : ∃ ls, (if r.json then "" else unlines (l.log.render source color)) =
      unlines ls := by
    split
    · exact ⟨[], rfl⟩
    · exact ⟨_, rfl⟩
  obtain ⟨ls, hls⟩ := hdiagnostics
  simp only [errors]
  rw [hstart, hls, Option.isNone_none, if_pos rfl]
  exact exists_splitLines_errorLine ls (by decide)

/-! ## Main result -/

/-- The verdicts depend on the source and the layout only. -/
theorem load_congr_layout (source : String) {r r' : Request} (h : r'.layout = r.layout) :
    (load source r'.options).automaton = (load source r.options).automaton ∧
      (load source r'.options).verdicts = (load source r.options).verdicts := by
  -- the description is read in the same way whether ambiguous lines are flagged or not
  have hflag (flag : Bool) : (Description.parse source ⟨r.layout, flag⟩).1 =
      (Description.parse source ⟨r.layout, true⟩).1 := by
    cases flag with
    | true => rfl
    | false => exact (Description.parse_flag source r.layout).1
  have hread : (Description.parse source r'.options).1 =
      (Description.parse source r.options).1 := by
    simp only [Request.options]
    rw [h]
    exact (hflag _).trans (hflag _).symm
  have hautomaton : (load source r'.options).automaton = (load source r.options).automaton :=
    congrArg (fun d : Description => d.compile.1) hread
  have htests : (load source r'.options).tests = (load source r.options).tests :=
    congrArg (fun d : Description => d.tests.map Located.value) hread
  refine ⟨hautomaton, ?_⟩
  simp only [Loaded.verdicts]
  rw [hautomaton, htests]

theorem run_eq_simulate {read : String → Except ReadFault String} {arguments : List String}
    {r : Request} {source : String} (hrequest : parseArguments arguments = .ok (.simulate r))
    (hread : read r.file = .ok source) (color : Bool) :
    run color read arguments = simulate color r source := by
  simp only [run]
  rw [hrequest]
  dsimp only
  rw [hread]

/-- The output of a simulation shows the verdicts. -/
theorem reports_simulate (color : Bool) (r : Request) (source : String) :
    r.Reports (load source r.options).automaton (load source r.options).verdicts
      (simulate color r source).stdout :=
  reports_output r _ (oneLine_load source r.options).1 (oneLine_load source r.options).2

/-- A run of the command on a file that can be read.  The exit code is 0 exactly if there is a start
    state, and else 1.  The output shows one verdict for each test, with the events of the run if
    they are asked for; without a start state it shows no verdicts, and the last line of the errors
    says what is missing.  Whatever the other flags are, the same file and layout give the same exit
    code and the same verdicts. -/
theorem run_reports {read : String → Except ReadFault String} {arguments : List String}
    {r : Request} {source : String} (hrequest : parseArguments arguments = .ok (.simulate r))
    (hread : read r.file = .ok source) (color : Bool) :
    let l := load source r.options
    let outcome := run color read arguments
    (outcome.code = if l.automaton.start.isSome then 0 else 1) ∧
      r.Reports l.automaton l.verdicts outcome.stdout ∧
      (l.automaton.start = none → l.verdicts = [] ∧ ∃ front, Text.splitLines outcome.stderr =
        front ++ ["error: automaton has no start state", ""]) ∧
      ∀ color' arguments' r', parseArguments arguments' = .ok (.simulate r') →
        r'.file = r.file → r'.layout = r.layout →
          (run color' read arguments').code = outcome.code ∧
            r'.Reports l.automaton l.verdicts (run color' read arguments').stdout := by
  intro l outcome
  have houtcome : outcome = simulate color r source := run_eq_simulate hrequest hread color
  rw [houtcome]
  refine ⟨rfl, reports_simulate color r source, fun hstart => ⟨?_, ?_⟩, ?_⟩
  · simp only [Loaded.verdicts]
    rw [hstart]
    rfl
  · exact exists_splitLines_errors color r source hstart
  · intro color' arguments' r' hrequest' hfile hlayout
    obtain ⟨hautomaton, hverdicts⟩ := load_congr_layout source hlayout
    rw [run_eq_simulate hrequest' (hfile ▸ hread) color']
    refine ⟨?_, ?_⟩
    · simp only [simulate]
      rw [hautomaton]
    · have hreports := reports_simulate color' r' source
      rwa [hautomaton, hverdicts] at hreports

/-- A description with a test that is accepted and two that are not. -/
def sampleSource : String :=
  "%dfa\naccept: q1\nstart: q0\ntransitions: q0,a,q1\ntests: a\nab\n~\n"

theorem run_reports_sample :
    let r : Request := { file := "-dfa.txt", trace := true, table := true, allowAmbiguous := true }
    let l := load sampleSource r.options
    let outcome := run true (fun _ => .ok sampleSource) r.commandLine
    parseArguments r.commandLine = .ok (.simulate r) ∧
      (outcome.code = if l.automaton.start.isSome then 0 else 1) ∧
      r.Reports l.automaton l.verdicts outcome.stdout ∧
      (l.automaton.start = none → l.verdicts = [] ∧ ∃ front, Text.splitLines outcome.stderr =
        front ++ ["error: automaton has no start state", ""]) ∧
      ∀ color' arguments' r', parseArguments arguments' = .ok (.simulate r') →
        r'.file = r.file → r'.layout = r.layout →
          (run color' (fun _ => .ok sampleSource) arguments').code = outcome.code ∧
            r'.Reports l.automaton l.verdicts
              (run color' (fun _ => .ok sampleSource) arguments').stdout := by
  intro r l outcome
  have hrequest : parseArguments r.commandLine = .ok (.simulate r) :=
    parseArguments_commandLine (by decide)
  have hread : (fun _ => .ok sampleSource : String → Except ReadFault String) r.file =
      .ok sampleSource := rfl
  exact ⟨hrequest, run_reports hrequest hread true⟩

end Command

end Acceptor
