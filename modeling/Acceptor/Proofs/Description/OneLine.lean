import Acceptor.Proofs.Automaton.Arena
import Acceptor.Proofs.Automaton.OneLine
import Acceptor.Proofs.Description.Faithful
import Acceptor.Proofs.Description.Transition

/-!
# Loaded names, symbols and tests have no line feed

Names and transitions are read from words, and tests from lines, so none of them has a line feed;
and an automaton that was compiled has no names and symbols but those of its description.

* `StandsIn.oneLine_compile`   automata of descriptions whose words stand in a source
* `oneLine_tests_parse`        test strings
* `oneLine_load`               everything that is loaded
-/

namespace Acceptor

namespace Transition

/-- The symbol of a transition is a character of the word it was read from. -/
theorem symbol_mem_toList {word : String} {t : Transition}
    (h : compact? word = some t ∨ delimited? word = some t) : t.symbol ∈ word.toList := by
  rcases h with h | h
  · simp only [compact?] at h
    split at h
    · next p c q hword =>
      obtain rfl := Option.some.inj h
      simp [hword]
    · cases h
  · obtain ⟨rfl, -, -⟩ := delimited?_eq_some_iff.mp h
    rw [toList_delimited]
    simp

end Transition

namespace Description

variable {source : String} {d : Description}

/-! ## The automaton -/

theorem StandsIn.isWord_of_mem_names (h : d.StandsIn source) {name : Token}
    (hname : name ∈ d.names) : Text.IsWord name.value := by
  simp only [names, List.mem_append] at hname
  rcases hname with (hname | hname) | hname
  · exact h.start.isWord name hname
  · exact h.accepting.isWord name hname
  · exact h.others.isWord name hname

theorem StandsIn.symbol_ne_newline (h : d.StandsIn source) {t : Located Transition}
    (ht : t ∈ d.transitions) : t.value.symbol ≠ '\n' := by
  obtain ⟨read?, ws, hts, hrow, hread⟩ := h.transitions
  rw [hts] at ht
  obtain ⟨w, hw, -, hwt⟩ := mem_readTransitions.mp ht
  have hmem := Transition.symbol_mem_toList (hread w.value t.value hwt)
  intro hnewline
  rw [hnewline] at hmem
  exact (hrow.isWord w hw).newline_not_mem hmem

/-- An edge of the automaton was given by some transition. -/
theorem exists_transition_of_edge {p q : String} {c : Char} (h : d.roster.edge p c = some q) :
    ∃ t ∈ d.transitions, t.value.symbol = c := by
  rw [edge_roster] at h
  obtain ⟨t, hlast, -⟩ := Option.map_eq_some_iff.mp h
  obtain ⟨ht, hedge⟩ := List.mem_filter.mp (List.mem_of_getLast? hlast)
  obtain ⟨t, hmem, rfl⟩ := List.mem_map.mp ht
  obtain ⟨-, hsymbol, -⟩ := of_decide_eq_true hedge
  exact ⟨t, hmem, hsymbol⟩

/-- A description whose parts stand in a source compiles to an automaton without line feeds. -/
theorem StandsIn.oneLine_compile (h : d.StandsIn source) : d.compile.1.OneLine where
  name s hs := by
    have hmem : s.name ∈ d.compile.1.names := by
      simp only [Automaton.names]
      exact List.mem_map_of_mem (Array.mem_toList_iff.mpr hs)
    rw [d.represents_compile.names_eq, names_roster] at hmem
    obtain ⟨name, hname, hvalue⟩ :=
      List.mem_map.mp (mem_distinctNames.mp (List.mem_of_mem_take hmem))
    rw [← hvalue]
    exact (h.isWord_of_mem_names hname).newline_not_mem
  newline_not_mem_alphabet hmem := by
    obtain ⟨s, hs, hedge⟩ := Automaton.mem_alphabet.mp hmem
    obtain ⟨i, hi, rfl⟩ := Array.mem_iff_getElem.mp hs
    have hsize : d.compile.1.states.size = d.roster.names.length := d.represents_compile.size_eq
    have hlimit : i < stateLimit := by
      have hle := d.roster.length_le
      omega
    have hget : d.compile.1.get? ⟨i, hlimit⟩ = some d.compile.1.states[i] :=
      Array.getElem?_eq_getElem hi
    obtain ⟨-, -, hsp⟩ := d.represents_compile.exists_name hget
    -- the edge is one of the roster, so it was given by a transition
    have hnext : (d.compile.1.states[i].next? '\n').isSome = true :=
      Std.ExtTreeMap.isSome_getElem?_iff_mem.mpr hedge
    rw [hsp.next?_eq] at hnext
    obtain ⟨id, hid⟩ := Option.isSome_iff_exists.mp hnext
    obtain ⟨q, hq, -⟩ := Option.bind_eq_some_iff.mp hid
    obtain ⟨t, ht, hsymbol⟩ := exists_transition_of_edge hq
    exact h.symbol_ne_newline ht hsymbol

/-! ## Tests -/

theorem oneLine_testString {line : Token} (h : Text.OneLine line.value) :
    Text.OneLine (testString line).value := by
  simp only [testString]
  split
  · exact (by decide : Text.OneLine "")
  · exact h

theorem oneLine_readTests {line value : Token} {rest : List Token}
    (h : Text.Page source (line :: rest)) (hvalue : value.PlacedIn (.ofToken line)) :
    ∀ t ∈ readTests value rest, Text.OneLine t.value := by
  intro t ht
  simp only [readTests, List.mem_append] at ht
  rcases ht with ht | ht
  · -- the test behind the colon is a stretch of its line
    obtain ⟨p, hp, rfl⟩ := hvalue
    rw [Piece.ofToken_token] at ht
    split at ht
    · cases ht
    · rw [List.mem_singleton.mp ht]
      refine oneLine_testString fun hmem => (h.isLine line List.mem_cons_self).no_newline ?_
      rw [show p.trim.token.value.toList = p.trim.chars from String.toList_ofList] at hmem
      exact (p.trim_within.trans hp).subset hmem
  · obtain ⟨l, hl, rfl⟩ := List.mem_map.mp ht
    exact oneLine_testString (h.isLine l (List.mem_cons_of_mem _ hl)).no_newline

@[simp] theorem tests_set (d : Description) (part : Section) (words : List Token) :
    (d.set part words).tests = d.tests := by
  cases part <;> rfl

theorem oneLine_tests_readSections {p : Progress}
    (hp : ∀ t ∈ p.description.tests, Text.OneLine t.value) {body : List Token}
    (h : Text.Page source body) :
    ∀ t ∈ (readSections p body).description.tests, Text.OneLine t.value := by
  induction body generalizing p with
  | nil => exact hp
  | cons line rest ih =>
    have hheader := h.header List.mem_cons_self
    rw [readSections]
    cases hof : Header.ofLine line with
    | malformed => exact ih hp h.tail
    | unknown key => exact ih hp h.tail
    | known part key value =>
      refine ih ?_ h.tail
      rw [Progress.description_set, tests_set]
      exact hp
    | tests value =>
      rw [hof] at hheader
      exact oneLine_readTests h hheader

theorem oneLine_tests_readLegacy (flagAmbiguity : Bool) (eof : Span) {ls : List Token}
    (h : Text.Page source ls) :
    ∀ t ∈ (readLegacy flagAmbiguity eof ls).1.tests, Text.OneLine t.value := by
  have hline : ∀ l ∈ ls, Text.OneLine l.value := fun l hl => (h.isLine l hl).no_newline
  match ls, hline with
  | [], _ => simp [readLegacy]
  | [accepting], _ => simp [readLegacy]
  | accepting :: start :: rest, hline =>
    simp only [readLegacy]
    cases rest with
    | nil => simp
    | cons third rest =>
      dsimp only
      split
      · intro t (ht : t ∈ rest)
        exact hline t (by simp [ht])
      · -- the third line lists states, and the transitions stand on the next one
        cases rest with
        | nil => simp
        | cons line rest =>
          intro t (ht : t ∈ rest)
          exact hline t (by simp [ht])

theorem oneLine_tests_parse (source : String) (options : Options) :
    ∀ t ∈ (parse source options).1.tests, Text.OneLine t.value := by
  have hpage := Text.Page.lines source
  simp only [parse]
  split
  · rw [readSectioned_eq]
    exact oneLine_tests_readSections (by simp) (hpage.sublist (sectionedBody_suffix _).sublist)
  · exact oneLine_tests_readLegacy _ _ hpage

end Description

/-! ## Loading -/

/-- The names and symbols of a loaded automaton and the tests have no line feed. -/
theorem oneLine_load (source : String) (options : Options) :
    (load source options).automaton.OneLine ∧
      ∀ t ∈ (load source options).tests, Text.OneLine t := by
  refine ⟨(Description.standsIn_parse source options).oneLine_compile, fun t ht => ?_⟩
  obtain ⟨token, htoken, rfl⟩ := List.mem_map.mp ht
  exact Description.oneLine_tests_parse source options token htoken

end Acceptor
