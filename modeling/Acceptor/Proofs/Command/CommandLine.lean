import Acceptor.Command.Arguments

/-!
# Command lines for requests

Every request with a file can be made: its command line gives the layout, the flags that are set
and, behind a double dash, the file, whatever the file is called.

* `readArguments_switches`       flags are read one after the other
* `parseArguments_commandLine`   the command line of a request asks for it
-/

namespace Acceptor.Command

/-- The word that stands for a layout. -/
def layoutWord : Layout → String
  | .auto => "auto"
  | .legacy => "legacy"
  | .sectioned => "sectioned"

/-- The flags of a request that are set. -/
def Request.switches (r : Request) : List Switch :=
  (if r.trace then [.trace] else []) ++ (if r.table then [.table] else []) ++
    (if r.json then [.json] else []) ++ if r.allowAmbiguous then [.allowAmbiguous] else []

/-- A command line that asks for a request. -/
def Request.commandLine (r : Request) : List String :=
  [Switch.layout.spelling, layoutWord r.layout] ++
    (r.switches.map Switch.spelling ++ ["--", r.file])

example : ({ file := "-t", trace := true } : Request).commandLine =
    ["--layout", "auto", "--trace", "--", "-t"] := by decide

/-- A flag that was not given before is taken note of. -/
theorem readArguments_switch {p : Reading} {s : Switch} (hs : s ≠ .layout) (hnew : s ∉ p.given)
    (rest : List String) :
    readArguments p (s.spelling :: rest) = readArguments { p with given := s :: p.given } rest := by
  have hgive : p.give s = .ok { p with given := s :: p.given } := if_neg hnew
  have hread : readArgument p s.spelling = .ok (.more { p with given := s :: p.given }) := by
    cases s with
    | layout => exact absurd rfl hs
    | trace => exact congrArg (Functor.map Next.more) hgive
    | table => exact congrArg (Functor.map Next.more) hgive
    | json => exact congrArg (Functor.map Next.more) hgive
    | allowAmbiguous => exact congrArg (Functor.map Next.more) hgive
  have hne : s.spelling ≠ "--" := by
    cases s <;> decide
  rw [readArguments, hread]
  exact fun h => hne h

/-- Flags that were not given before are taken note of one after the other. -/
theorem readArguments_switches {p : Reading} {ss : List Switch} (hnodup : ss.Nodup)
    (hss : ∀ s ∈ ss, s ≠ .layout ∧ s ∉ p.given) (rest : List String) :
    readArguments p (ss.map Switch.spelling ++ rest) =
      readArguments { p with given := ss.reverse ++ p.given } rest := by
  induction ss generalizing p with
  | nil => rfl
  | cons s ss ih =>
    obtain ⟨hs, hnew⟩ := hss s List.mem_cons_self
    obtain ⟨hfresh, hnodup⟩ := List.nodup_cons.mp hnodup
    have hrest : ∀ t ∈ ss, t ≠ .layout ∧ t ∉ s :: p.given := by
      intro t ht
      obtain ⟨hlayout, hgiven⟩ := hss t (List.mem_cons_of_mem _ ht)
      refine ⟨hlayout, fun hmem => ?_⟩
      rcases List.mem_cons.mp hmem with rfl | hmem
      · exact hfresh ht
      · exact hgiven hmem
    rw [List.map_cons, List.cons_append, readArguments_switch hs hnew, ih hnodup hrest,
      List.reverse_cons, List.append_assoc, List.singleton_append]

/-- The command line of a request asks for it. -/
theorem parseArguments_commandLine {r : Request} (hfile : r.file ≠ "") :
    parseArguments r.commandLine = .ok (.simulate r) := by
  have hlayout (rest : List String) :
      readArguments {} (Switch.layout.spelling :: layoutWord r.layout :: rest) =
        readArguments { layout := r.layout, given := [.layout] } rest := by
    cases r.layout <;> rfl
  have hswitches : r.switches.Nodup ∧ ∀ s ∈ r.switches, s ≠ .layout ∧ s ∉ [Switch.layout] := by
    simp only [Request.switches]
    cases r.trace <;> cases r.table <;> cases r.json <;> cases r.allowAmbiguous <;> decide
  have hend (p : Reading) (hp : p.file? = none) :
      readArguments p ["--", r.file] = { p with file? := some r.file }.request := by
    have hgive : p.giveFile r.file = .ok { p with file? := some r.file } := by
      simp only [Reading.giveFile]
      rw [hp]
      exact if_neg (by simpa using hfile)
    show ([r.file].foldlM Reading.giveFile p >>= Reading.request) = _
    rw [List.foldlM_cons, hgive]
    rfl
  -- the flags that were taken note of are those of the request
  have hgiven : Reading.request ⟨some r.file, r.layout, r.switches.reverse ++ [.layout]⟩ =
      .ok (.simulate r) := by
    obtain ⟨file, layout, trace, table, json, allowAmbiguous⟩ := r
    cases trace <;> cases table <;> cases json <;> cases allowAmbiguous <;> rfl
  simp only [parseArguments, Request.commandLine]
  rw [List.cons_append, List.cons_append, List.nil_append, hlayout,
    readArguments_switches hswitches.1 hswitches.2, hend _ rfl]
  exact hgiven

end Acceptor.Command
