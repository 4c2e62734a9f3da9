import Acceptor.Proofs.Description.Unplaced
import Acceptor.Proofs.Text.Moved

/-!
# Reports about other places

Two reports may say the same about different places.  `Diagnostic.Moved R` states that they do, and
that `R` relates the places, note by note.

* `Diagnostic.Moved.unplaced_eq`               such reports are the same up to places
* `Diagnostic.Moved.error`, `.warning`, `.withHelp`   how such reports are made
-/

namespace Acceptor

variable {R : Span → Span → Prop}

/-- The notes say the same, and `R` relates their places; neither has a place or both have one. -/
structure Note.Moved (R : Span → Span → Prop) (n n' : Note) : Prop where
  level_eq : n.level = n'.level
  message_eq : n.message = n'.message
  issue?_eq : n.issue? = n'.issue?
  span? : Option.Rel R n.span? n'.span?

/-- The diagnostics consist of notes that say the same, one by one. -/
def Diagnostic.Moved (R : Span → Span → Prop) (d d' : Diagnostic) : Prop :=
  List.Forall₂ (Note.Moved R) d.notes d'.notes

theorem Note.Moved.unplaced_eq {n n' : Note} (h : n.Moved R n') : n.unplaced = n'.unplaced := by
  obtain ⟨level, message, span?, issue?⟩ := n
  obtain ⟨level', message', span?', issue?'⟩ := n'
  obtain ⟨rfl, rfl, rfl, hspan⟩ := h
  cases hspan <;> rfl

namespace Diagnostic.Moved

/-- Forgetting the places, nothing but what is said is left. -/
theorem unplaced_eq {d d' : Diagnostic} (h : d.Moved R d') : d.unplaced = d'.unplaced := by
  obtain ⟨hnote, hattached⟩ := List.forall₂_cons.mp h
  simp only [Diagnostic.unplaced]
  rw [hnote.unplaced_eq, map_eq_of_forall₂ (fun _ _ hn => Note.Moved.unplaced_eq hn) hattached]

theorem error {span? span?' : Option Span} (h : Option.Rel R span? span?') (issue? : Option Issue)
    (message : String) :
    (Diagnostic.error issue? message span?).Moved R (Diagnostic.error issue? message span?') :=
  .cons ⟨rfl, rfl, rfl, h⟩ .nil

theorem warning {span span' : Span} (h : R span span') (issue : Issue) (message : String) :
    (Diagnostic.warning issue message span).Moved R (Diagnostic.warning issue message span') :=
  .cons ⟨rfl, rfl, rfl, .some h⟩ .nil

/-- A hint has no place. -/
theorem withHelp {d d' : Diagnostic} (h : d.Moved R d') (message : String) :
    (d.withHelp message).Moved R (d'.withHelp message) :=
  .cons (List.forall₂_cons.mp h).1 (.cons ⟨rfl, rfl, rfl, .none⟩ .nil)

end Diagnostic.Moved

/-- What is made of equal values, and reported at their places, is moved with them. -/
theorem Located.Moved.map_warning {α : Type} {ts ts' : List (Located α)}
    (h : List.Forall₂ (Located.Moved R) ts ts') (issue : Issue) (message : α → String) :
    List.Forall₂ (Diagnostic.Moved R)
      (ts.map fun t => .warning issue (message t.value) t.span)
      (ts'.map fun t => .warning issue (message t.value) t.span) := by
  refine List.rel_map (fun t t' ht => ?_) h
  rw [ht.value_eq]
  exact .warning ht.span issue _

end Acceptor
