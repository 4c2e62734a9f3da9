import Mathlib.Data.List.Nodup
import Acceptor.Proofs.Automaton.Arena

/-!
# The edges of an automaton

An edge is told by the state it leaves and by its symbol, so an automaton has as many edges as it
has such pairs, and `edgePairs` lists every one of them once.  If the automaton represents a roster,
they are the names and symbols that the roster has an edge for.

* `mem_edgePairs`, `nodup_edgePairs`
* `length_edgePairs`            their number, counted state by state
* `Represents.edgePairs_perm`   the edges of a roster
-/

namespace Acceptor

namespace Automaton

variable {a : Automaton}

/-- The pairs of a state and a symbol that it has an edge on. -/
def edgePairs (a : Automaton) : List (StateId × Char) :=
  a.ids.flatMap fun id => ((a.get? id).elim [] (·.edges.keys)).map (id, ·)

/-- The number of edges of all states together. -/
def edgeCount (a : Automaton) : Nat := (a.states.toList.flatMap State.transitions).length

theorem mem_ids (h : a.size ≤ stateLimit) {id : StateId} : id ∈ a.ids ↔ id.index < a.size := by
  rw [← List.mem_range, ← map_index_ids h, List.mem_map]
  constructor
  · exact fun hid => ⟨id, hid, rfl⟩
  · rintro ⟨id', hid', hindex⟩
    exact StateId.ext hindex ▸ hid'

theorem nodup_ids (h : a.size ≤ stateLimit) : a.ids.Nodup := by
  apply List.Nodup.of_map StateId.index
  rw [map_index_ids h]
  exact List.nodup_range

/-- Going through the ids is going through the states. -/
theorem map_get?_ids (h : a.size ≤ stateLimit) : a.ids.map a.get? = a.states.toList.map some := by
  have hget : a.ids.map a.get? = (a.ids.map StateId.index).map (a.states[·]?) :=
    (List.map_map ..).symm
  rw [hget, map_index_ids h]
  apply List.ext_getElem
  · simp [size]
  · intro i hi _
    have hlt : i < a.states.size := by simpa [size] using hi
    simp [hlt]

theorem mem_edgePairs (h : a.size ≤ stateLimit) {id : StateId} {c : Char} :
    (id, c) ∈ a.edgePairs ↔ ∃ target, a.step id c = some target := by
  have hstep : (∃ target, a.step id c = some target) ↔ ∃ s, a.get? id = some s ∧ c ∈ s.edges := by
    simp only [step]
    cases a.get? id with
    | none => simp
    | some s =>
      have hedge : c ∈ s.edges ↔ ∃ target, s.next? c = some target := by
        rw [← Std.ExtTreeMap.isSome_getElem?_iff_mem, Option.isSome_iff_exists]
        rfl
      simp [hedge]
  rw [hstep]
  simp only [edgePairs, List.mem_flatMap, List.mem_map, Prod.mk.injEq]
  constructor
  · rintro ⟨id', -, c', hc, rfl, rfl⟩
    cases hs : a.get? id' with
    | none => simp [hs] at hc
    | some s => exact ⟨s, rfl, by simpa [hs] using hc⟩
  · rintro ⟨s, hs, hc⟩
    exact ⟨id, (mem_ids h).mpr (exists_get?_iff.mp ⟨s, hs⟩), c, by simpa [hs] using hc, rfl, rfl⟩

theorem nodup_edgePairs (h : a.size ≤ stateLimit) : a.edgePairs.Nodup := by
  refine List.nodup_flatMap.mpr ⟨fun id _ => ?_, (nodup_ids h).imp fun {i j} hij => ?_⟩
  · -- the symbols of one state
    refine List.Nodup.map (fun c d hcd => (Prod.mk.inj hcd).2) ?_
    cases a.get? id with
    | none => exact List.nodup_nil
    | some s => exact Std.ExtTreeMap.nodup_keys
  · -- the edges of different states
    intro pair hi hj
    obtain ⟨c, -, rfl⟩ := List.mem_map.mp hi
    obtain ⟨d, -, hd⟩ := List.mem_map.mp hj
    exact hij (Prod.mk.inj hd).1.symm

theorem length_edgePairs (h : a.size ≤ stateLimit) : a.edgePairs.length = a.edgeCount := by
  have hsum : a.edgePairs.length =
      ((a.ids.map a.get?).map fun s? => (s?.elim [] (·.edges.keys)).length).sum := by
    simp only [edgePairs]
    rw [List.length_flatMap, List.map_map]
    simp [Function.comp_def]
  have hstate (s : State) : s.transitions.length = s.edges.keys.length := by
    simp [State.transitions, Std.ExtTreeMap.length_keys, Std.ExtTreeMap.length_toList]
  rw [hsum, map_get?_ids h, List.map_map, edgeCount, List.length_flatMap]
  simp [Function.comp_def, hstate]

end Automaton

/-- If no name and symbol is listed twice and they are those that a roster has an edge for, they are
    the edges of every automaton that represents it. -/
theorem Represents.edgePairs_perm {a : Automaton} {r : Roster} (h : Represents a r)
    {keys : List (String × Char)} (hnodup : keys.Nodup)
    (hkeys : ∀ p c, (p, c) ∈ keys ↔ (r.edge p c).isSome = true) :
    (keys.map fun key => (a.stateId? key.1).map (·, key.2)).Perm (a.edgePairs.map some) := by
  have hsize : a.size ≤ stateLimit := h.size_eq ▸ r.length_le
  -- a name with an edge is registered, and has an id of its own
  have hid : ∀ p c, (p, c) ∈ keys → ∃ hp : p ∈ r.names, a.stateId? p = some (r.idOf p hp) := by
    intro p c hkey
    obtain ⟨q, hq⟩ := Option.isSome_iff_exists.mp ((hkeys p c).mp hkey)
    have hp := (r.edge_mem hq).1
    exact ⟨hp, (h.stateId?_eq p).trans (Roster.idOf?_of_mem hp)⟩
  -- neither list has an entry twice, so it is enough that they have the same entries
  refine (List.perm_ext_iff_of_nodup ?_ ?_).mpr ?_
  · refine hnodup.map_on ?_
    rintro ⟨p, c⟩ hpc ⟨q, d⟩ hqd heq
    obtain ⟨hp, hpid⟩ := hid p c hpc
    obtain ⟨hq, hqid⟩ := hid q d hqd
    simp only [hpid, hqid, Option.map_some, Option.some_inj, Prod.mk.injEq] at heq
    rw [Roster.idOf_inj heq.1, heq.2]
  · exact (Automaton.nodup_edgePairs hsize).map fun _ _ => Option.some.inj
  · intro pair?
    simp only [List.mem_map]
    constructor
    · rintro ⟨⟨p, c⟩, hpc, rfl⟩
      obtain ⟨hp, hpid⟩ := hid p c hpc
      obtain ⟨q, hq⟩ := Option.isSome_iff_exists.mp ((hkeys p c).mp hpc)
      refine ⟨(r.idOf p hp, c), (Automaton.mem_edgePairs hsize).mpr ?_, by simp [hpid]⟩
      refine ⟨r.idOf q (r.edge_mem hq).2, ?_⟩
      rw [h.step_eq p hp c, hq]
      exact Roster.idOf?_of_mem _
    · rintro ⟨⟨id, c⟩, hpair, rfl⟩
      obtain ⟨target, htarget⟩ := (Automaton.mem_edgePairs hsize).mp hpair
      obtain ⟨s, hs, -⟩ := Option.bind_eq_some_iff.mp htarget
      obtain ⟨hp, rfl, -⟩ := h.exists_name hs
      rw [h.step_eq _ hp] at htarget
      obtain ⟨q, hq, -⟩ := Option.bind_eq_some_iff.mp htarget
      refine ⟨(s.name, c), (hkeys _ _).mpr (by simp [hq]), ?_⟩
      simp [h.stateId?_eq, Roster.idOf?_of_mem hp]

end Acceptor
