import Acceptor.Proofs.Automaton.Refinement

/-!
# What names see of an automaton

Ids are handed out by the automaton, so what an automaton is to do is said about names: which names
accept, where runs begin, and from which name which symbol leads to which name.  These relations
look the states up by their places and forget the places.  If an automaton represents a roster, they
are what the roster says.

* `Represents.hasAccepting_iff`
* `Represents.startsAt_iff`
* `Represents.hasEdge_iff`
-/

namespace Acceptor

namespace Automaton

/-- A state with this name accepts. -/
def HasAccepting (a : Automaton) (p : String) : Prop :=
  ∃ id s, a.get? id = some s ∧ s.name = p ∧ s.accepting = true

/-- Runs begin in a state with this name. -/
def StartsAt (a : Automaton) (p : String) : Prop :=
  ∃ id s, a.start = some id ∧ a.get? id = some s ∧ s.name = p

/-- An edge on `c` leads from a state named `p` to one named `q`. -/
def HasEdge (a : Automaton) (p : String) (c : Char) (q : String) : Prop :=
  ∃ id s target t, a.get? id = some s ∧ s.name = p ∧ s.next? c = some target ∧
    a.get? target = some t ∧ t.name = q

end Automaton

namespace Represents

variable {a : Automaton} {r : Roster}

theorem hasAccepting_iff (h : Represents a r) {p : String} :
    a.HasAccepting p ↔ p ∈ r.names ∧ r.accepting p = true := by
  constructor
  · intro hparts
    obtain ⟨id, s, hs, hp, haccepting⟩ := hparts
    subst hp
    obtain ⟨hmem, -, hsp⟩ := h.exists_name hs
    exact ⟨hmem, hsp.accepting_eq ▸ haccepting⟩
  · intro hparts
    obtain ⟨hmem, haccepting⟩ := hparts
    obtain ⟨s, hs, hsp⟩ := h.get?_idOf p hmem
    exact ⟨_, s, hs, hsp.name_eq, hsp.accepting_eq.trans haccepting⟩

/-- The place of a name is the place of a state with that name. -/
theorem bind_idOf?_eq_some_iff (h : Represents a r) {o : Option String} {p : String}
    (ho : ∀ {q}, o = some q → q ∈ r.names) :
    (∃ id s, o.bind r.idOf? = some id ∧ a.get? id = some s ∧ s.name = p) ↔ o = some p := by
  constructor
  · intro hparts
    obtain ⟨id, s, hid, hs, hp⟩ := hparts
    subst hp
    -- the state at the place of a name has that name
    obtain ⟨q, rfl, hq⟩ := Option.bind_eq_some_iff.mp hid
    have hmem := ho rfl
    rw [Roster.idOf?_of_mem hmem, Option.some_inj] at hq
    obtain ⟨t, ht, htp⟩ := h.get?_idOf q hmem
    rw [hq, hs, Option.some_inj] at ht
    rw [ht, htp.name_eq]
  · intro hop
    subst hop
    have hmem := ho rfl
    obtain ⟨s, hs, hsp⟩ := h.get?_idOf p hmem
    exact ⟨_, s, Roster.idOf?_of_mem hmem, hs, hsp.name_eq⟩

theorem startsAt_iff (h : Represents a r) {p : String} : a.StartsAt p ↔ r.start = some p := by
  simp only [Automaton.StartsAt]
  rw [h.start_eq]
  exact h.bind_idOf?_eq_some_iff r.start_mem

theorem hasEdge_iff (h : Represents a r) {p : String} {c : Char} {q : String} :
    a.HasEdge p c q ↔ r.edge p c = some q := by
  have hend {q' : String} (hedge : r.edge p c = some q') : q' ∈ r.names := (r.edge_mem hedge).2
  have hbind := h.bind_idOf?_eq_some_iff (p := q) hend
  rw [← hbind]
  constructor
  · intro hparts
    obtain ⟨id, s, target, t, hs, hp, htarget, ht, htq⟩ := hparts
    subst hp
    obtain ⟨-, -, hsp⟩ := h.exists_name hs
    exact ⟨target, t, hsp.next?_eq c ▸ htarget, ht, htq⟩
  · intro hedge
    -- only a registered name has an edge
    have hmem : p ∈ r.names := (r.edge_mem (hbind.mp hedge)).1
    obtain ⟨target, t, htarget, ht, htq⟩ := hedge
    obtain ⟨s, hs, hsp⟩ := h.get?_idOf p hmem
    exact ⟨_, s, target, t, hs, hsp.name_eq, (hsp.next?_eq c).trans htarget, ht, htq⟩

end Represents

end Acceptor
