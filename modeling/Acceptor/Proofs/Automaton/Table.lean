import Acceptor.Proofs.Automaton.Edges
import Acceptor.Proofs.Automaton.OneLine

/-!
# The shape of the table

The cells of the table are as wide as the longest name, so every name fits into one, and a dash and
a symbol do because no table is narrower than one character.  All lines are made of the same number
of cells behind a front of the same width, and there is one of them for every state.

* `WellFormed.rowFits`                    the cells are wide enough
* `WellFormed.length_tableLines`          the number of lines
* `WellFormed.length_of_mem_tableLines`   the number of characters in a line
-/

namespace Acceptor

/-! ## Texts that are filled up and joined -/

namespace Text

variable {s : String} {n : Nat}

theorem toList_padRight (n : Nat) (s : String) :
    (padRight n s).toList = s.toList ++ List.replicate (n - s.length) ' ' := by
  simp only [padRight]
  rw [String.toList_append, toList_pushn, String.toList_empty, List.nil_append]

theorem length_padRight (h : s.length ≤ n) : (padRight n s).length = n := by
  rw [← String.length_toList, toList_padRight, List.length_append, List.length_replicate,
    String.length_toList]
  omega

theorem map_length_eq {ls : List String} (h : ∀ l ∈ ls, l.length = n) :
    ls.map String.length = List.replicate ls.length n :=
  List.map_eq_replicate_iff.mpr h

theorem length_join {ls : List String} (h : ∀ l ∈ ls, l.length = n) :
    (String.join ls).length = ls.length * n := by
  rw [String.length_join, map_length_eq h, List.sum_replicate_nat]

end Text

/-! ## The width of the table -/

namespace Automaton

variable {a : Automaton} {id : StateId} {s : State} {α : List Char} {f : Char → String}
  {w : Nat}

/-- The number of characters in the longest name of a state, if there are states. -/
def longestName (a : Automaton) : Nat := (a.names.map String.length).max?.getD 0

theorem nameWidth_eq (a : Automaton) : a.nameWidth = max 1 a.longestName := by
  simp only [nameWidth, longestName, names]
  rw [List.map_map, ← Array.foldl_toList]
  -- the width is a running maximum over the lengths, and it begins with one
  have hfold : a.states.toList.foldl (fun width s => max width s.name.length) 1 =
      (a.states.toList.map (String.length ∘ State.name)).foldl max 1 := by
    rw [List.foldl_map]
    rfl
  rw [hfold, List.foldl_max]
  cases (a.states.toList.map (String.length ∘ State.name)).max? <;> simp

theorem one_le_nameWidth (a : Automaton) : 1 ≤ a.nameWidth := by
  rw [nameWidth_eq]
  omega

/-- The cells are wide enough for the name of every state. -/
theorem length_name_le (hs : s ∈ a.states) : s.name.length ≤ a.nameWidth := by
  have hmem : s.name.length ∈ a.names.map String.length := by
    apply List.mem_map_of_mem
    apply List.mem_map_of_mem
    exact Array.mem_toList_iff.mpr hs
  rw [nameWidth_eq, longestName]
  cases hmax : (a.names.map String.length).max? with
  | none =>
    rw [List.max?_eq_none_iff.mp hmax] at hmem
    exact absurd hmem List.not_mem_nil
  | some n =>
    have hle := (List.max?_eq_some_iff.mp hmax).2 _ hmem
    rw [Option.getD_some]
    omega

theorem length_tableCell {text : String} (h : text.length ≤ w) :
    (tableCell w text).length = 3 + w := by
  simp only [tableCell]
  rw [String.length_append, Text.length_padRight h]
  rfl

/-- What is shown for an edge is the name of a state, and a dash stands only where there is none. -/
theorem WellFormed.tableTarget_cases (hwf : a.WellFormed) (hs : a.get? id = some s) (c : Char) :
    s.next? c = none ∧ a.tableTarget s c = "-" ∨
      ∃ t ∈ a.states, s.next? c ≠ none ∧ a.tableTarget s c = t.name := by
  cases hc : s.next? c with
  | none => exact .inl ⟨rfl, by simp only [tableTarget, hc]⟩
  | some target =>
    obtain ⟨t, ht⟩ := exists_get?_iff.mpr (hwf.target_lt hs hc)
    refine .inr ⟨t, Array.mem_of_getElem? ht, Option.some_ne_none target, ?_⟩
    simp only [tableTarget, nameOf, hc, ht]

/-- The line of a state fits into cells of the given width. -/
structure RowFits (a : Automaton) (w : Nat) (s : State) : Prop where
  name : s.name.length ≤ w
  target : ∀ c, (a.tableTarget s c).length ≤ w

/-- Every name fits into a cell, and so does a dash. -/
theorem WellFormed.rowFits (hwf : a.WellFormed) (hs : a.get? id = some s) :
    a.RowFits a.nameWidth s where
  name := length_name_le (Array.mem_of_getElem? hs)
  target c := by
    rcases hwf.tableTarget_cases hs c with ⟨-, htarget⟩ | ⟨t, ht, -, htarget⟩
    · rw [htarget]
      exact a.one_le_nameWidth
    · rw [htarget]
      exact length_name_le ht

/-! ## The length of a line -/

theorem length_of_mem_cells (hf : ∀ c ∈ α, (f c).length ≤ w) :
    ∀ cell ∈ α.map fun c => tableCell w (f c), cell.length = 3 + w := by
  intro cell hcell
  obtain ⟨c, hc, rfl⟩ := List.mem_map.mp hcell
  exact length_tableCell (hf c hc)

theorem length_cells (hf : ∀ c ∈ α, (f c).length ≤ w) :
    (String.join (α.map fun c => tableCell w (f c))).length = α.length * (3 + w) := by
  rw [Text.length_join (length_of_mem_cells hf), List.length_map]

theorem length_singleton_le (hw : 1 ≤ w) : ∀ c ∈ α, (String.singleton c).length ≤ w := by
  intro c _
  rw [String.length_singleton]
  exact hw

theorem length_tableHeader (hw : 1 ≤ w) :
    (tableHeader w α).length = 4 + w + α.length * (3 + w) := by
  simp only [tableHeader]
  rw [String.length_append, length_cells (length_singleton_le hw), ← String.length_toList,
    Text.toList_pushn]
  simp

/-- The mark of the start state. -/
def arrow (a : Automaton) (id : StateId) : String := if a.start = some id then "->" else "  "

/-- The mark of an accepting state. -/
def star (s : State) : String := if s.accepting then "*" else " "

theorem length_arrow (a : Automaton) (id : StateId) : (a.arrow id).length = 2 := by
  simp only [arrow]
  split <;> rfl

theorem length_star (s : State) : (star s).length = 1 := by
  simp only [star]
  split <;> rfl

theorem tableRow_eq (a : Automaton) (w : Nat) (α : List Char) (id : StateId) (s : State) :
    a.tableRow w α id s = a.arrow id ++ star s ++ " " ++ Text.padRight w s.name ++
      String.join (α.map fun c => tableCell w (a.tableTarget s c)) := rfl

theorem length_front (a : Automaton) (id : StateId) (s : State) :
    (a.arrow id ++ star s ++ " ").length = 4 := by
  rw [String.length_append, String.length_append, length_arrow, length_star]
  rfl

theorem RowFits.length_named (hs : a.RowFits w s) (id : StateId) :
    (a.arrow id ++ star s ++ " " ++ Text.padRight w s.name).length = 4 + w := by
  rw [String.length_append, length_front, Text.length_padRight hs.name]

theorem RowFits.length_tableRow (hs : a.RowFits w s) :
    (a.tableRow w α id s).length = 4 + w + α.length * (3 + w) := by
  rw [tableRow_eq, String.length_append, hs.length_named, length_cells fun c _ => hs.target c]

/-! ## The lines of the states -/

/-- The lines below the first one, one for every state. -/
def tableRows (a : Automaton) : List String :=
  a.ids.filterMap fun id => (a.get? id).map (a.tableRow a.nameWidth a.alphabet id)

theorem tableLines_eq (a : Automaton) :
    a.tableLines = tableHeader a.nameWidth a.alphabet :: a.tableRows := rfl

/-- Every id that is listed has a state, so none is left out. -/
theorem WellFormed.map_some_tableRows (hwf : a.WellFormed) :
    a.tableRows.map some =
      a.ids.map fun id => (a.get? id).map (a.tableRow a.nameWidth a.alphabet id) := by
  rw [tableRows, List.map_filterMap, ← List.filterMap_eq_map]
  apply List.filterMap_congr
  intro id hid
  obtain ⟨s, hs⟩ := exists_get?_iff.mpr ((mem_ids hwf.size_le).mp hid)
  simp [hs]

theorem WellFormed.length_tableLines (hwf : a.WellFormed) : a.tableLines.length = a.size + 1 := by
  have hrows := congrArg List.length hwf.map_some_tableRows
  have hids := congrArg List.length (map_index_ids hwf.size_le)
  rw [List.length_map, List.length_map] at hrows
  rw [List.length_map, List.length_range] at hids
  rw [tableLines_eq, List.length_cons, hrows, hids]

/-- All lines of the table have the same number of characters. -/
theorem WellFormed.length_of_mem_tableLines (hwf : a.WellFormed) :
    ∀ l ∈ a.tableLines, l.length = 4 + a.nameWidth + a.alphabet.length * (3 + a.nameWidth) := by
  intro l hl
  rw [tableLines_eq, List.mem_cons] at hl
  rcases hl with rfl | hl
  · exact length_tableHeader a.one_le_nameWidth
  · obtain ⟨id, -, hrow⟩ := List.mem_filterMap.mp hl
    obtain ⟨s, hs, rfl⟩ := Option.map_eq_some_iff.mp hrow
    exact (hwf.rowFits hs).length_tableRow

end Automaton

end Acceptor
