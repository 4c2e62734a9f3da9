import Acceptor.Proofs.Automaton.Arena

/-!
# Runs follow the extended transition function

`Automaton.follow?` extends `step` from symbols to lists of symbols; it is undefined as soon as one
symbol has no edge.  A run is accepted exactly if `follow?` leads from the start to an accepting
state, so what a run does on an input that is put together can be told from its parts.

The same is said of a run that is stepped through.  `Simulator.Reached` ties what a simulator shows
to the symbols it has consumed: its position is their length in bytes, and its state is where they
lead.  One step keeps this and either consumes a symbol or decides the run, so a decision comes
after at most one step more than there are symbols.

* `run_of_start`          a run in terms of `follow?`
* `follow?_append`        consuming one input after the other
* `traceFrom_of_stuck`    what comes behind a symbol without an edge is never looked at
* `Simulator.Reached.step`, `Simulator.Reached.after`   one step, any number of steps
-/

namespace Acceptor

namespace Automaton

variable {a : Automaton} {q r : StateId}

/-- The extended transition function: the state in which following edges from `q` ends, if all
    symbols have one. -/
def follow? (a : Automaton) (q : StateId) (cs : List Char) : Option StateId := cs.foldlM a.step q

@[simp] theorem follow?_nil (a : Automaton) (q : StateId) : a.follow? q [] = some q := rfl

@[simp] theorem follow?_cons (a : Automaton) (q : StateId) (c : Char) (cs : List Char) :
    a.follow? q (c :: cs) = (a.step q c).bind (a.follow? · cs) :=
  List.foldlM_cons

theorem follow?_append (a : Automaton) (q : StateId) (us vs : List Char) :
    a.follow? q (us ++ vs) = (a.follow? q us).bind (a.follow? · vs) :=
  List.foldlM_append

/-! ## Verdicts -/

/-- All symbols have an edge exactly if none is left over. -/
theorem follow?_eq (a : Automaton) (q : StateId) (cs : List Char) :
    a.follow? q cs =
      if (a.advance q cs).2 = [] then some (a.advance q cs).1 else none := by
  induction cs generalizing q with
  | nil => rfl
  | cons c cs ih =>
    rw [follow?_cons, advance]
    cases a.step q c with
    | none => simp
    | some r => exact ih r

theorem run_of_no_start (input : String) (h : a.start = none) :
    a.run input = .error .missingStart := by
  simp only [run]
  rw [h]

/-- A run accepts exactly if the edges for its symbols lead to an accepting state. -/
theorem run_of_start (input : String) (h : a.start = some q) :
    a.run input = .ok ((a.follow? q input.toList).any a.isAccepting) := by
  simp only [run]
  rw [h, follow?_eq]
  dsimp only
  cases a.advance q input.toList with
  | mk r rest =>
    cases rest with
    | nil => rfl
    | cons c cs => simp

theorem run_eq_error_iff (input : String) :
    a.run input = .error .missingStart ↔ a.start = none := by
  cases h : a.start with
  | none => simp [run_of_no_start input h]
  | some q => simp [run_of_start input h]

/-- The automaton with its runs beginning in `q`. -/
def startingAt (a : Automaton) (q : StateId) : Automaton := { a with start := some q }

theorem run_startingAt (a : Automaton) (q : StateId) (input : String) :
    (a.startingAt q).run input = .ok ((a.follow? q input.toList).any a.isAccepting) :=
  run_of_start input rfl

/-- A run whose first part is consumed completely goes on from the state it has reached. -/
theorem run_append_of_consumed (u v : String) (h : a.start = some q)
    (hu : a.follow? q u.toList = some r) : a.run (u ++ v) = (a.startingAt r).run v := by
  rw [run_of_start _ h, run_startingAt, String.toList_append, follow?_append, hu, Option.bind_some]

/-- A run that gets stuck does so whatever follows. -/
theorem run_append_of_stuck (u v : String) (h : a.start = some q)
    (hu : a.follow? q u.toList = none) : a.run (u ++ v) = .ok false := by
  rw [run_of_start _ h, String.toList_append, follow?_append, hu]
  rfl

/-! ## Traces -/

theorem traceFrom_of_stuck (events : Array RunEvent) (q : StateId) (position : Nat)
    {us : List Char} (hu : a.follow? q us = none) (vs : List Char) :
    a.traceFrom events q position (us ++ vs) = a.traceFrom events q position us := by
  induction us generalizing events q position with
  | nil => simp at hu
  | cons c us ih =>
    rw [follow?_cons] at hu
    rw [List.cons_append, traceFrom, traceFrom]
    cases hc : a.step q c with
    | none => rfl
    | some r => exact ih _ r _ (by simpa [hc] using hu)

theorem trace_append_of_stuck (u v : String) (h : a.start = some q)
    (hu : a.follow? q u.toList = none) : a.trace (u ++ v) = a.trace u := by
  simp only [trace]
  rw [h, String.toList_append]
  dsimp only
  rw [traceFrom_of_stuck _ _ _ hu]

/-! ## Symbols -/

private theorem mem_foldl_insertMany (states : List State) (symbols : Std.ExtTreeSet Char)
    (c : Char) :
    c ∈ states.foldl (fun symbols s => symbols.insertMany s.edges.keys) symbols ↔
      c ∈ symbols ∨ ∃ s ∈ states, c ∈ s.edges := by
  induction states generalizing symbols with
  | nil => simp
  | cons s states ih => simp [ih, or_assoc]

/-- The alphabet holds every symbol that some state has an edge on. -/
theorem mem_alphabet {c : Char} : c ∈ a.alphabet ↔ ∃ s ∈ a.states, c ∈ s.edges := by
  simp only [alphabet]
  rw [Std.ExtTreeSet.mem_toList, ← Array.foldl_toList, mem_foldl_insertMany]
  simp

theorem mem_alphabet_of_step {c : Char} (h : a.step q c = some r) : c ∈ a.alphabet := by
  obtain ⟨s, hs, hc⟩ := Option.bind_eq_some_iff.mp h
  obtain ⟨hlt, rfl⟩ := get?_eq_some_iff.mp hs
  refine mem_alphabet.mpr ⟨_, Array.getElem_mem hlt, ?_⟩
  exact Std.ExtTreeMap.isSome_getElem?_iff_mem.mp (Option.isSome_of_eq_some hc)

/-- Only symbols of the alphabet can be consumed. -/
theorem mem_alphabet_of_follow? {cs : List Char} (h : a.follow? q cs = some r) :
    ∀ c ∈ cs, c ∈ a.alphabet := by
  induction cs generalizing q with
  | nil => simp
  | cons c cs ih =>
    rw [follow?_cons] at h
    obtain ⟨p, hp, hcs⟩ := Option.bind_eq_some_iff.mp h
    intro d hd
    rcases List.mem_cons.mp hd with rfl | hd
    · exact mem_alphabet_of_step hp
    · exact ih hcs d hd

end Automaton

/-! ## Stepping through a run -/

/-- Whether the run was decided in favour of its input. -/
def Verdict.accepts : Verdict → Bool
  | .accept _ => true
  | .reject _ => false

namespace Simulator

variable {a : Automaton} {q : StateId} {input : List Char} {s : Simulator}

/-- The simulator shows the run of `a` from `q` on `input` after it has consumed `consumed`. -/
structure Reached (a : Automaton) (q : StateId) (input : List Char) (s : Simulator)
    (consumed : List Char) : Prop where
  automaton_eq : s.automaton = a
  input_eq : input = consumed ++ s.rest
  position_eq : s.position = Text.byteLength consumed
  follow?_eq : a.follow? q consumed = some s.state
  /-- A decision is the one that is due: the input is used up, or the next symbol has no edge. -/
  accepts_eq : ∀ {v}, s.verdict? = some v →
    v.accepts = (a.follow? q input).any a.isAccepting

/-- The bytes in front of the position are those of the consumed symbols. -/
theorem Reached.splitAtByte?_eq {consumed : List Char} (h : s.Reached a q input consumed) :
    Text.splitAtByte? s.position input = some (consumed, s.rest) :=
  Text.splitAtByte?_eq_some_iff.mpr ⟨h.input_eq, h.position_eq.symm⟩

/-- The input is used up exactly if the position is its end. -/
theorem Reached.rest_eq_nil_iff {input : String} {consumed : List Char}
    (h : s.Reached a q input.toList consumed) :
    s.rest = [] ↔ s.position = input.utf8ByteSize := by
  have hlength : input.utf8ByteSize = Text.byteLength consumed + Text.byteLength s.rest := by
    rw [← Text.byteLength_toList, h.input_eq, Text.byteLength_append]
  rw [hlength, h.position_eq, ← Text.byteLength_eq_zero_iff]
  omega

/-- How far a run has to go: one step for every symbol and one for the decision. -/
def remaining (s : Simulator) : Nat :=
  match s.verdict? with
  | some _ => 0
  | none => s.rest.length + 1

/-- A step keeps what the simulator shows, and brings it nearer to its decision. -/
theorem Reached.step {consumed : List Char} (h : s.Reached a q input consumed) :
    ∃ consumed', s.step.2.Reached a q input consumed' ∧ s.step.2.remaining ≤ s.remaining - 1 := by
  -- where the whole input leads, seen from here
  have hfollow : a.follow? q input = a.follow? s.state s.rest := by
    rw [h.input_eq, Automaton.follow?_append, h.follow?_eq, Option.bind_some]
  have hsame := h.automaton_eq
  subst hsame
  unfold Simulator.step
  cases hv : s.verdict? with
  | some v => exact ⟨consumed, h, by simp [remaining, hv]⟩
  | none =>
    cases hrest : s.rest with
    | nil =>
      -- the input is used up, and the state decides
      dsimp only
      refine ⟨consumed, ⟨rfl, hrest ▸ h.input_eq, h.position_eq, h.follow?_eq, fun hv => ?_⟩,
        by simp [remaining]⟩
      obtain rfl := Option.some.inj hv
      rw [hfollow, hrest, Automaton.follow?_nil, Option.any_some]
      cases s.automaton.isAccepting s.state <;> rfl
    | cons c cs =>
      dsimp only
      cases hc : s.automaton.step s.state c with
      | none =>
        -- the symbol has no edge, so the input is rejected
        refine ⟨consumed, ⟨rfl, hrest ▸ h.input_eq, h.position_eq, h.follow?_eq, fun hv => ?_⟩,
          by simp [remaining]⟩
        obtain rfl := Option.some.inj hv
        rw [hfollow, hrest, Automaton.follow?_cons, hc]
        rfl
      | some r =>
        refine ⟨consumed ++ [c], ⟨rfl, ?_, ?_, ?_, fun hv => by simp at hv⟩, ?_⟩
        · rw [h.input_eq, hrest, List.append_assoc, List.singleton_append]
        · simp [h.position_eq]
        · rw [Automaton.follow?_append, h.follow?_eq]
          simp [hc]
        · simp [remaining, hv, hrest]

/-- Any number of steps keeps what the simulator shows. -/
theorem Reached.after {consumed : List Char} (h : s.Reached a q input consumed) (n : Nat) :
    ∃ consumed', (s.after n).Reached a q input consumed' ∧
      (s.after n).remaining ≤ s.remaining - n := by
  induction n generalizing s consumed with
  | zero => exact ⟨consumed, h, Nat.le_refl _⟩
  | succ n ih =>
    obtain ⟨consumed₁, h₁, hle₁⟩ := h.step
    obtain ⟨consumed₂, h₂, hle₂⟩ := ih h₁
    refine ⟨consumed₂, h₂, ?_⟩
    simp only [Simulator.after]
    omega

/-- When nothing remains to be done there is a decision. -/
theorem exists_verdict_of_remaining_eq_zero (h : s.remaining = 0) : ∃ v, s.verdict? = some v := by
  cases hv : s.verdict? with
  | some v => exact ⟨v, rfl⟩
  | none => simp [remaining, hv] at h

/-- A simulator that has consumed nothing. -/
theorem exists_simulate (input : String) (h : a.start = some q) :
    ∃ s, a.simulate input = .ok s ∧ s.Reached a q input.toList [] ∧
      s.remaining = input.length + 1 := by
  refine ⟨⟨a, q, 0, input.toList, none⟩, by simp [Automaton.simulate, h], ?_, ?_⟩
  · exact ⟨rfl, rfl, rfl, rfl, fun hv => by simp at hv⟩
  · exact congrArg (· + 1) String.length_toList

end Simulator

/-! ## Main result -/

/-- Runs compute the extended transition function.  After any calls, a run fails exactly if no start
    is bound; otherwise it accepts exactly if all symbols have an edge and the last one leads to an
    accepting state, and else rejects.

    Stepping through the run, at every moment the state exists and is the one that the consumed
    symbols lead to, and cutting the input at the position succeeds and gives the consumed symbols
    and those to come, of which there are none only at the end of the input; every decision is the
    one of the run, and there is one after at most one step more than there are symbols.

    A run on two inputs in a row continues from the state in which the first one ends, or is stuck
    with the same events wherever the first one is; and symbols outside the alphabet are never
    accepted. -/
theorem run_extends_step (edits : List Edit) (input : String) :
    let a := Automaton.empty.after edits
    (a.run input = .error .missingStart ↔ a.start = none) ∧
      ∀ q, a.start = some q →
        (a.run input = .ok true ↔
          ∃ r, a.follow? q input.toList = some r ∧ a.isAccepting r = true) ∧
        (a.run input = .ok false ↔
          ¬∃ r, a.follow? q input.toList = some r ∧ a.isAccepting r = true) ∧
        (∃ s, a.simulate input = .ok s ∧
          (∀ n, ∃ consumed,
            Text.splitAtByte? (s.after n).position input.toList =
                some (consumed, (s.after n).rest) ∧
              (s.after n).position = Text.byteLength consumed ∧
              ((s.after n).rest = [] ↔ (s.after n).position = input.utf8ByteSize) ∧
              a.follow? q consumed = some (s.after n).state ∧
              ∃ t, a.get (s.after n).state = .ok t) ∧
          (∀ n v, (s.after n).verdict? = some v → a.run input = .ok v.accepts) ∧
          ∃ v, (s.after (input.length + 1)).verdict? = some v) ∧
        (∀ r, a.follow? q input.toList = some r →
          ∀ more, a.run (input ++ more) = (a.startingAt r).run more) ∧
        (a.follow? q input.toList = none →
          ∀ more, a.run (input ++ more) = .ok false ∧ a.trace (input ++ more) = a.trace input) ∧
        ∀ c ∈ input.toList, c ∉ a.alphabet → a.run input = .ok false := by
  intro a
  refine ⟨Automaton.run_eq_error_iff input, fun q hq => ?_⟩
  have hrun := Automaton.run_of_start input hq
  have hany : (a.follow? q input.toList).any a.isAccepting = true ↔
      ∃ r, a.follow? q input.toList = some r ∧ a.isAccepting r = true := by
    cases a.follow? q input.toList <;> simp
  obtain ⟨s, hs, hreached, hremaining⟩ := Simulator.exists_simulate input hq
  refine ⟨by rw [hrun, ← hany]; simp, by rw [hrun, ← hany]; simp, ⟨s, hs, fun n => ?_, ?_, ?_⟩,
    fun r hr more => Automaton.run_append_of_consumed input more hq hr,
    fun hstuck more => ⟨Automaton.run_append_of_stuck input more hq hstuck,
      Automaton.trace_append_of_stuck input more hq hstuck⟩, fun c hc hout => ?_⟩
  · obtain ⟨consumed, h, -⟩ := hreached.after n
    have hlt := Simulator.after_simulate_lt (wellFormed_after edits) hs n
    obtain ⟨t, ht, -⟩ := Automaton.exists_get_of_lt hlt
    exact ⟨consumed, h.splitAtByte?_eq, h.position_eq, h.rest_eq_nil_iff, h.follow?_eq, t, ht⟩
  · intro n v hv
    obtain ⟨consumed, h, -⟩ := hreached.after n
    rw [hrun, h.accepts_eq hv]
  · obtain ⟨consumed, h, hle⟩ := hreached.after (input.length + 1)
    exact Simulator.exists_verdict_of_remaining_eq_zero (by omega)
  · -- an accepted input would have consumed the symbol
    cases hfollow : a.follow? q input.toList with
    | none => rw [hrun, hfollow, Option.any_none]
    | some r => exact absurd (Automaton.mem_alphabet_of_follow? hfollow c hc) hout

end Acceptor
