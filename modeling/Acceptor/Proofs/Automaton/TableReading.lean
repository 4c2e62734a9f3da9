import Mathlib.Data.List.Flatten
import Acceptor.Proofs.Automaton.ExtendedStep
import Acceptor.Proofs.Automaton.Table
import Acceptor.Proofs.Text.Pieces

/-!
# The table tells the automaton

If the names have no blanks, the table can be read.  The first bar of the first line tells the width
of the cells, and the rest of that line the symbols.  Then the places of all cells are known, and a
name in a cell can be told from the blanks that fill the cell up.  A name tells the state an edge
leads to, and a dash that there is none.  So automata that are shown by the same table are the same.

* `Text.join_inj`                 texts of one width can be told apart when joined
* `tableHeader_inj`               what the first line tells
* `RowFits.tableRow_inj`          what the line of a state tells
* `Legible.eq_of_tableLines_eq`   what all of them tell
-/

namespace Acceptor

/-! ## Telling texts and states apart -/

namespace Text

variable {s t u v : String} {m n : Nat}

/-- The blanks that fill a text up can be told from its characters, if none of these is blank. -/
theorem padRight_inj (hs : ∀ c ∈ s.toList, isBlank c = false)
    (ht : ∀ c ∈ t.toList, isBlank c = false) (h : padRight m s = padRight n t) : s = t := by
  have hfront {u : String} (hu : ∀ c ∈ u.toList, isBlank c = false) (n : Nat) :
      (padRight n u).toList.takeWhile (! isBlank ·) = u.toList := by
    have hblank : isBlank ' ' = true := by decide
    rw [toList_padRight, List.takeWhile_append_of_pos fun c hc => by simp [hu c hc],
      List.takeWhile_replicate]
    simp [hblank]
  apply String.toList_inj.mp
  rw [← hfront hs m, h, hfront ht n]

theorem append_inj_of_length_eq (h : s ++ t = u ++ v) (hlength : s.length = u.length) :
    s = u ∧ t = v := by
  have hchars : s.toList ++ t.toList = u.toList ++ v.toList := by
    rw [← String.toList_append, h, String.toList_append]
  obtain ⟨hfront, hback⟩ := List.append_inj hchars hlength
  exact ⟨String.toList_inj.mp hfront, String.toList_inj.mp hback⟩

/-- Joined texts of the same positive length can be told apart. -/
theorem join_inj {ls ms : List String} (hn : 0 < n) (hls : ∀ l ∈ ls, l.length = n)
    (hms : ∀ m ∈ ms, m.length = n) (h : String.join ls = String.join ms) : ls = ms := by
  have hcount : ls.length = ms.length := by
    have hlength := congrArg String.length h
    rw [length_join hls, length_join hms] at hlength
    exact Nat.eq_of_mul_eq_mul_right hn hlength
  have hchars : (ls.map String.toList).flatten = (ms.map String.toList).flatten := by
    rw [← List.flatMap_def, ← List.flatMap_def, ← String.toList_join, h, String.toList_join]
  -- the joined characters and the lengths determine the parts
  have hparts : ls.map String.toList = ms.map String.toList := by
    apply List.eq_iff_flatten_eq.mpr
    refine ⟨hchars, ?_⟩
    rw [List.map_map, List.map_map]
    show ls.map String.length = ms.map String.length
    rw [map_length_eq hls, map_length_eq hms, hcount]
  exact List.map_injective_iff.mpr (fun _ _ => String.toList_inj.mp) hparts

end Text

theorem State.eq_of_next?_eq {s t : State} (hname : s.name = t.name)
    (haccepting : s.accepting = t.accepting) (hedges : ∀ c, s.next? c = t.next? c) : s = t := by
  cases s
  cases t
  exact (State.mk.injEq ..).mpr ⟨hname, haccepting, Std.ExtTreeMap.ext_getElem? hedges⟩

namespace Automaton

variable {a b : Automaton} {id : StateId} {s t : State} {c : Char} {α β : List Char}
  {f g : Char → String} {v w : Nat}

/-- The cells of a line can be told apart, whatever stands in them. -/
theorem cells_inj (hf : ∀ c ∈ α, (f c).length ≤ w) (hg : ∀ c ∈ β, (g c).length ≤ w)
    (h : String.join (α.map fun c => tableCell w (f c)) =
      String.join (β.map fun c => tableCell w (g c))) :
    α.map (fun c => Text.padRight w (f c)) = β.map fun c => Text.padRight w (g c) := by
  have hcells := Text.join_inj (by omega) (length_of_mem_cells hf) (length_of_mem_cells hg) h
  have hbar : Function.Injective (" | " ++ · : String → String) :=
    fun _ _ h => (Text.append_inj_of_length_eq h rfl).2
  apply List.map_injective_iff.mpr hbar
  rw [List.map_map, List.map_map]
  exact hcells

/-! ## What the first line tells -/

/-- In front of the first bar there are the empty space and one more blank. -/
theorem exists_toList_tableHeader_cons (w : Nat) (c : Char) (α : List Char) :
    ∃ more, (tableHeader w (c :: α)).toList = List.replicate (5 + w) ' ' ++ '|' :: more := by
  refine ⟨' ' :: (Text.padRight w (String.singleton c)).toList ++
    (String.join (α.map fun d => tableCell w (String.singleton d))).toList, ?_⟩
  have hblanks : List.replicate (5 + w) ' ' = List.replicate (4 + w) ' ' ++ [' '] := by
    rw [← List.replicate_succ', Nat.add_right_comm]
  have hbar : (" | " : String).toList = [' ', '|', ' '] := by decide
  simp only [tableHeader, tableCell, List.map_cons, String.join_cons, String.toList_append]
  rw [Text.toList_pushn, hblanks, hbar]
  simp

theorem bar_mem_tableHeader_iff : '|' ∈ (tableHeader w α).toList ↔ α ≠ [] := by
  cases α with
  | nil => simp [tableHeader, Text.toList_pushn]
  | cons c α =>
    obtain ⟨more, hmore⟩ := exists_toList_tableHeader_cons w c α
    simp [hmore]

/-- The length tells the width if there are no symbols, and otherwise the first bar does. -/
theorem width_eq_of_tableHeader_eq (hv : 1 ≤ v) (hw : 1 ≤ w)
    (h : tableHeader v α = tableHeader w β) : v = w := by
  have hnil : α = [] ↔ β = [] := by
    rw [← not_iff_not, ← Ne, ← Ne, ← bar_mem_tableHeader_iff (w := v), h, bar_mem_tableHeader_iff]
  cases α with
  | nil =>
    have hlength := congrArg String.length h
    rw [hnil.mp rfl, length_tableHeader hv, length_tableHeader hw] at hlength
    simpa using hlength
  | cons c α =>
    cases β with
    | nil => exact absurd (hnil.mpr rfl) (List.cons_ne_nil c α)
    | cons d β =>
      obtain ⟨more, hmore⟩ := exists_toList_tableHeader_cons v c α
      obtain ⟨more', hmore'⟩ := exists_toList_tableHeader_cons w d β
      have hchars : List.replicate (5 + v) ' ' ++ '|' :: more =
          List.replicate (5 + w) ' ' ++ '|' :: more' := by
        rw [← hmore, h, hmore']
      have hle := Text.length_le_of_append_cons_eq hchars (by simp)
      have hge := Text.length_le_of_append_cons_eq hchars.symm (by simp)
      rw [List.length_replicate, List.length_replicate] at hle hge
      omega

/-- The first line tells how wide the names are and what the symbols are. -/
theorem tableHeader_inj (hv : 1 ≤ v) (hw : 1 ≤ w) (h : tableHeader v α = tableHeader w β) :
    v = w ∧ α = β := by
  obtain rfl := width_eq_of_tableHeader_eq hv hw h
  refine ⟨rfl, ?_⟩
  obtain ⟨-, hcells⟩ := Text.append_inj_of_length_eq h rfl
  -- a symbol is the first character of its cell, so it does not matter whether it is a blank
  have hinj : Function.Injective fun c => Text.padRight v (String.singleton c) := by
    intro c d hcd
    have hchars := congrArg String.toList hcd
    rw [Text.toList_padRight, Text.toList_padRight, String.toList_singleton,
      String.toList_singleton] at hchars
    exact (List.cons.inj hchars).1
  apply List.map_injective_iff.mpr hinj
  exact cells_inj (length_singleton_le hv) (length_singleton_le hv) hcells

/-! ## What the line of a state tells -/

theorem arrow_inj (h : a.arrow id = b.arrow id) : a.start = some id ↔ b.start = some id := by
  simp only [arrow] at h
  have hne : "->" ≠ "  " := by decide
  split at h <;> split at h <;> simp_all

theorem star_inj (h : star s = star t) : s.accepting = t.accepting := by
  have hne : "*" ≠ " " := by decide
  simp only [star] at h
  cases hs : s.accepting <;> cases ht : t.accepting <;> simp_all

/-- The line of a state tells its marks, its name and what is shown for its edges. -/
theorem RowFits.tableRow_inj (hs : a.RowFits w s) (ht : b.RowFits w t)
    (h : a.tableRow w α id s = b.tableRow w α id t) :
    (a.start = some id ↔ b.start = some id) ∧ s.accepting = t.accepting ∧
      Text.padRight w s.name = Text.padRight w t.name ∧
      ∀ c ∈ α, Text.padRight w (a.tableTarget s c) = Text.padRight w (b.tableTarget t c) := by
  rw [tableRow_eq, tableRow_eq] at h
  -- the line is taken apart from behind
  obtain ⟨h, hcells⟩ := Text.append_inj_of_length_eq h (by rw [hs.length_named, ht.length_named])
  obtain ⟨h, hname⟩ := Text.append_inj_of_length_eq h (by rw [length_front, length_front])
  obtain ⟨h, -⟩ := Text.append_inj_of_length_eq h (by
    rw [String.length_append, String.length_append, length_arrow, length_arrow, length_star,
      length_star])
  obtain ⟨harrow, hstar⟩ := Text.append_inj_of_length_eq h (by rw [length_arrow, length_arrow])
  have htargets := cells_inj (fun c _ => hs.target c) (fun c _ => ht.target c) hcells
  exact ⟨arrow_inj harrow, star_inj hstar, hname, List.map_inj_left.mp htargets⟩

/-! ## Reading a table back -/

/-- No name has a blank, and none looks like the dash that stands where there is no edge. -/
structure Legible (a : Automaton) : Prop where
  not_blank : ∀ s ∈ a.states, ∀ c ∈ s.name.toList, Text.isBlank c = false
  ne_dash : ∀ s ∈ a.states, s.name ≠ "-"

/-- The ids are only counted off, so the number of lines tells them. -/
theorem WellFormed.ids_eq (hwfa : a.WellFormed) (hwfb : b.WellFormed)
    (h : a.tableLines.length = b.tableLines.length) : a.ids = b.ids := by
  rw [hwfa.length_tableLines, hwfb.length_tableLines, Nat.add_right_cancel_iff] at h
  simp only [ids]
  rw [h]

/-- Both automata have a state at every id. -/
theorem WellFormed.exists_both (hwfa : a.WellFormed) (hwfb : b.WellFormed)
    (h : a.tableLines.length = b.tableLines.length) :
    ∀ id ∈ a.ids, ∃ s t, a.get? id = some s ∧ b.get? id = some t := by
  intro id hid
  obtain ⟨s, hs⟩ := exists_get?_iff.mpr ((mem_ids hwfa.size_le).mp hid)
  rw [hwfa.ids_eq hwfb h] at hid
  obtain ⟨t, ht⟩ := exists_get?_iff.mpr ((mem_ids hwfb.size_le).mp hid)
  exact ⟨s, t, hs, ht⟩

theorem map_some_names (h : a.size ≤ stateLimit) :
    a.names.map some = a.ids.map fun id => (a.get? id).map State.name := by
  have hget := congrArg (List.map (Option.map State.name)) (map_get?_ids h)
  rw [List.map_map, List.map_map] at hget
  rw [names, List.map_map]
  exact hget.symm

theorem names_getElem?_eq_nameOf (h : id.index < a.size) :
    a.names[id.index]? = some (a.nameOf id) := by
  obtain ⟨s, hs⟩ := exists_get?_iff.mpr h
  rw [getElem?_names, nameOf, hs]
  rfl

/-- Where the names are the same, a name tells the id. -/
theorem WellFormed.eq_of_nameOf_eq (hwf : a.WellFormed) (hnames : a.names = b.names)
    {p q : StateId} (hp : p.index < a.size) (hq : q.index < b.size)
    (h : a.nameOf p = b.nameOf q) : p = q := by
  have hp' := names_getElem?_eq_nameOf hp
  have hq' := names_getElem?_eq_nameOf hq
  obtain ⟨hlt, -⟩ := List.getElem?_eq_some_iff.mp hp'
  apply StateId.ext
  apply (List.getElem?_inj hlt hwf.names_nodup).mp
  rw [hp', h, ← hq', hnames]

theorem tableTarget_of_not_mem (hs : a.get? id = some s) (hc : c ∉ a.alphabet) :
    a.tableTarget s c = "-" := by
  cases hsc : s.next? c with
  | none => simp only [tableTarget, hsc]
  | some target =>
    have hstep : a.step id c = some target := by
      rw [step, hs]
      exact hsc
    exact absurd (mem_alphabet_of_step hstep) hc

namespace Legible

theorem tableTarget_not_blank (h : a.Legible) (hwf : a.WellFormed) (hs : a.get? id = some s)
    (c : Char) : ∀ d ∈ (a.tableTarget s c).toList, Text.isBlank d = false := by
  intro d hd
  rcases hwf.tableTarget_cases hs c with ⟨-, htarget⟩ | ⟨t, ht, -, htarget⟩
  · have hdash : d = '-' := by simpa [htarget] using hd
    rw [hdash]
    decide
  · rw [htarget] at hd
    exact h.not_blank t ht d hd

theorem tableTarget_eq_dash_iff (h : a.Legible) (hwf : a.WellFormed) (hs : a.get? id = some s) :
    a.tableTarget s c = "-" ↔ s.next? c = none := by
  rcases hwf.tableTarget_cases hs c with ⟨hc, htarget⟩ | ⟨t, ht, hc, htarget⟩
  · exact iff_of_true htarget hc
  · exact iff_of_false (htarget ▸ h.ne_dash t ht) hc

/-- What is shown for an edge tells where it leads, or that it is missing. -/
theorem next?_eq (ha : a.Legible) (hb : b.Legible) (hwfa : a.WellFormed) (hwfb : b.WellFormed)
    (hnames : a.names = b.names) (hs : a.get? id = some s) (ht : b.get? id = some t)
    (h : a.tableTarget s c = b.tableTarget t c) : s.next? c = t.next? c := by
  have hdash : s.next? c = none ↔ t.next? c = none := by
    rw [← ha.tableTarget_eq_dash_iff hwfa hs, h, hb.tableTarget_eq_dash_iff hwfb ht]
  cases hsc : s.next? c with
  | none => exact (hdash.mp hsc).symm
  | some p =>
    cases htc : t.next? c with
    | none => exact absurd (hdash.mpr htc) (by simp [hsc])
    | some q =>
      simp only [tableTarget, hsc, htc] at h
      have hpq := hwfa.eq_of_nameOf_eq hnames (hwfa.target_lt hs hsc) (hwfb.target_lt ht htc) h
      rw [hpq]

section SameLines

variable (ha : a.Legible) (hb : b.Legible) (hwfa : a.WellFormed) (hwfb : b.WellFormed)
  (h : a.tableLines = b.tableLines)

include ha hb hwfa hwfb h

/-- The same lines tell the same about a state. -/
theorem line_tells (hs : a.get? id = some s) (ht : b.get? id = some t) :
    (a.start = some id ↔ b.start = some id) ∧ s.accepting = t.accepting ∧ s.name = t.name ∧
      ∀ c, a.tableTarget s c = b.tableTarget t c := by
  have hids := hwfa.ids_eq hwfb (congrArg List.length h)
  rw [tableLines_eq, tableLines_eq] at h
  obtain ⟨hheader, hrows⟩ := List.cons.inj h
  obtain ⟨hwidth, halphabet⟩ := tableHeader_inj a.one_le_nameWidth b.one_le_nameWidth hheader
  have hrow : a.tableRow a.nameWidth a.alphabet id s = b.tableRow a.nameWidth a.alphabet id t := by
    have hall := hwfa.map_some_tableRows
    rw [hrows, hwfb.map_some_tableRows, ← hids] at hall
    have hid : id ∈ a.ids := (mem_ids hwfa.size_le).mpr (exists_get?_iff.mp ⟨s, hs⟩)
    have hline := List.map_inj_left.mp hall id hid
    rw [hs, ht, Option.map_some, Option.map_some, Option.some_inj] at hline
    rw [← hline, hwidth, halphabet]
  have hfits : b.RowFits a.nameWidth t := hwidth ▸ hwfb.rowFits ht
  obtain ⟨hstart, haccepting, hname, htargets⟩ := (hwfa.rowFits hs).tableRow_inj hfits hrow
  refine ⟨hstart, haccepting, ?_, fun c => ?_⟩
  · exact Text.padRight_inj (ha.not_blank s (Array.mem_of_getElem? hs))
      (hb.not_blank t (Array.mem_of_getElem? ht)) hname
  · by_cases hc : c ∈ a.alphabet
    · exact Text.padRight_inj (ha.tableTarget_not_blank hwfa hs c)
        (hb.tableTarget_not_blank hwfb ht c) (htargets c hc)
    · -- there is no column for this symbol, as no state has an edge on it
      rw [tableTarget_of_not_mem hs hc, tableTarget_of_not_mem ht (halphabet ▸ hc)]

theorem names_eq : a.names = b.names := by
  have hcount := congrArg List.length h
  apply List.map_injective_iff.mpr fun _ _ => Option.some.inj
  rw [map_some_names hwfa.size_le, map_some_names hwfb.size_le, ← hwfa.ids_eq hwfb hcount]
  apply List.map_inj_left.mpr
  intro id hid
  obtain ⟨s, t, hs, ht⟩ := hwfa.exists_both hwfb hcount id hid
  obtain ⟨-, -, hname, -⟩ := ha.line_tells hb hwfa hwfb h hs ht
  rw [hs, ht, Option.map_some, Option.map_some, hname]

theorem states_eq : a.states = b.states := by
  have hcount := congrArg List.length h
  -- an edge is shown by the name of the state it leads to
  have hnames := ha.names_eq hb hwfa hwfb h
  apply Array.toList_inj.mp
  apply List.map_injective_iff.mpr fun _ _ => Option.some.inj
  rw [← map_get?_ids hwfa.size_le, ← map_get?_ids hwfb.size_le, ← hwfa.ids_eq hwfb hcount]
  apply List.map_inj_left.mpr
  intro id hid
  obtain ⟨s, t, hs, ht⟩ := hwfa.exists_both hwfb hcount id hid
  obtain ⟨-, haccepting, hname, htargets⟩ := ha.line_tells hb hwfa hwfb h hs ht
  have hedges := fun c => ha.next?_eq hb hwfa hwfb hnames hs ht (htargets c)
  rw [hs, ht, State.eq_of_next?_eq hname haccepting hedges]

theorem start_eq : a.start = b.start := by
  have hcount := congrArg List.length h
  apply Option.ext
  intro id
  by_cases hid : id ∈ a.ids
  · obtain ⟨s, t, hs, ht⟩ := hwfa.exists_both hwfb hcount id hid
    exact (ha.line_tells hb hwfa hwfb h hs ht).1
  · -- the start is a state
    have hid' : id ∉ b.ids := hwfa.ids_eq hwfb hcount ▸ hid
    constructor
    · exact fun hstart => absurd ((mem_ids hwfa.size_le).mpr (hwfa.start_lt hstart)) hid
    · exact fun hstart => absurd ((mem_ids hwfb.size_le).mpr (hwfb.start_lt hstart)) hid'

/-- The same lines show the same automaton. -/
theorem eq_of_tableLines_eq : a = b :=
  hwfb.eq_of_states_eq hwfa (ha.states_eq hb hwfa hwfb h) (ha.start_eq hb hwfa hwfb h)

end SameLines

end Legible

end Automaton

/-! ## Main result -/

/-- The table is rectangular and loses nothing.  If no name or symbol holds a line feed, it has one
    line more than there are states, and all of them have the same number of characters, which
    follows from the longest name and the number of symbols.  If, besides, the names have no blanks
    and none is a dash, then automata with the same table are the same in all their ids, names,
    flags and edges and in the start. -/
theorem table_tells_automaton (edits : List Edit) :
    let a := Automaton.empty.after edits
    (a.OneLine → ∃ ls, Text.splitLines a.table = ls ++ [""] ∧ ls.length = a.size + 1 ∧
      ∀ l ∈ ls, l.length =
        4 + max 1 a.longestName + a.alphabet.length * (3 + max 1 a.longestName)) ∧
      ∀ others, let b := Automaton.empty.after others
        a.OneLine → b.OneLine → a.Legible → b.Legible → a.table = b.table → a = b := by
  intro a
  have hwf : a.WellFormed := wellFormed_after edits
  refine ⟨fun hline => ⟨a.tableLines, Text.splitLines_join hline.tableLines,
    hwf.length_tableLines, ?_⟩, ?_⟩
  · rw [← a.nameWidth_eq]
    exact hwf.length_of_mem_tableLines
  · intro others b hlinea hlineb ha hb htable
    have hlines : a.tableLines ++ [""] = b.tableLines ++ [""] := by
      rw [← Text.splitLines_join hlinea.tableLines, ← Text.splitLines_join hlineb.tableLines]
      exact congrArg Text.splitLines htable
    apply ha.eq_of_tableLines_eq hb hwf (wellFormed_after others)
    exact List.append_cancel_right hlines

/-- Names and symbols may look like other parts of the table. -/
def signEdits : List Edit :=
  [.addState "|" false, .addState "->" true, .addState "*" false, .setStart "|",
    .addTransition "|" '*' "->", .addTransition "->" '|' "->", .addTransition "*" '>' "|"]

theorem table_tells_signs :
    let a := Automaton.empty.after signEdits
    (∃ ls, Text.splitLines a.table = ls ++ [""] ∧ ls.length = 4 ∧ ∀ l ∈ ls, l.length = 21) ∧
      ∀ others, let b := Automaton.empty.after others
        b.OneLine → b.Legible → a.table = b.table → a = b := by
  have hline : (Automaton.empty.after signEdits).OneLine := ⟨by decide, by decide⟩
  have hwords : ∀ s ∈ (Automaton.empty.after signEdits).states, Text.IsWord s.name := by decide
  have hlegible : (Automaton.empty.after signEdits).Legible :=
    ⟨fun s hs => (hwords s hs).not_blank, by decide⟩
  exact ⟨(table_tells_automaton signEdits).1 hline,
    fun others hlineb hb => (table_tells_automaton signEdits).2 others hline hlineb hlegible hb⟩

/-- An edge to a state that is named like the dash is shown as if it were missing. -/
example :
    let b := Automaton.empty.after
      [.addState "-" false, .addState "s" true, .addTransition "s" 'x' "s"]
    let a := b.after [.addTransition "-" 'x' "-"]
    a.table = b.table ∧ a ≠ b := by
  decide

end Acceptor
