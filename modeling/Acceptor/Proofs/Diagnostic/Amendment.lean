import Acceptor.Diagnostic.Basic

/-!
# Amending diagnostics

A diagnostic is amended by marking one of its notes with an issue or by attaching something to one
of them.  A note has place for one attached note, so at each depth below the main note there is at
most one, and the depth is all that is needed to say which note is meant.

Of a list of amendments, the last one that attaches something to the main note decides what is
attached to it, and of those below the main note only the ones behind it count, as amendments of
what was attached.  The depths may come in any order; where there is no note, nothing happens.  A
`Thread` is a tree of findings, each one attached to the one above; walking through it gives a list
of amendments, and what stays attached is the last reply to each note.

* `Diagnostic.note_amendAll`        the main note in the end
* `Diagnostic.child?_amendAll`      what is attached to it in the end
* `Diagnostic.notes_amend_attach`   what attaching leaves of a chain
* `Emission.child?_entry`           what is attached to a finding that is amended
* `Thread.child?_entry`             what is attached to a finding with replies
-/

namespace Acceptor

/-- What is attached to the main note, with all that is attached below. -/
def Diagnostic.child? (d : Diagnostic) : Option Diagnostic :=
  match d.attached with
  | [] => none
  | n :: ns => some ⟨n, ns⟩

/-! ## Findings -/

/-- What is reported, or attached to a note: a message, perhaps about a place in the source, or a
    diagnostic that was made before. -/
inductive Finding
  | error (message : String) (span? : Option Span)
  | warning (message : String) (span? : Option Span)
  | help (message : String)
  | made (diagnostic : Diagnostic)
deriving DecidableEq, Repr

namespace Finding

/-- The diagnostic that a finding is reported as. -/
def diagnostic : Finding → Diagnostic
  | .error message span? => .error none message span?
  | .warning message span? => { note := { level := .warning, message, span? } }
  | .help message => { note := { level := .help, message } }
  | .made d => d

/-- The level, message and place that were given, and the issue of a diagnostic made before. -/
def note : Finding → Note
  | .error message span? => ⟨.error, message, span?, none⟩
  | .warning message span? => ⟨.warning, message, span?, none⟩
  | .help message => ⟨.help, message, none, none⟩
  | .made d => d.note

/-- What comes with a finding; only a diagnostic made before can come with something. -/
def child? : Finding → Option Diagnostic
  | .made d => d.child?
  | _ => none

theorem note_diagnostic (finding : Finding) : finding.diagnostic.note = finding.note := by
  cases finding <;> rfl

theorem child?_diagnostic (finding : Finding) : finding.diagnostic.child? = finding.child? := by
  cases finding <;> rfl

end Finding

/-! ## Amendments -/

/-- A change to a diagnostic, made at the note that stands `depth` places below the main one. -/
inductive Amendment
  /-- The note is marked with an issue. -/
  | mark (depth : Nat) (issue : Issue)
  /-- A finding is attached to the note, in the place of what was attached to it before. -/
  | attach (depth : Nat) (finding : Finding)
deriving DecidableEq, Repr

namespace Amendment

/-- The issue that the main note is marked with. -/
def ownIssue? : Amendment → Option Issue
  | .mark 0 issue => some issue
  | _ => none

/-- An amendment below the main note, as one of the diagnostic attached to it. -/
def below? : Amendment → Option Amendment
  | .mark (depth + 1) issue => some (.mark depth issue)
  | .attach (depth + 1) finding => some (.attach depth finding)
  | _ => none

/-- An amendment of a diagnostic, as one of what that diagnostic is attached to. -/
def lowered : Amendment → Amendment
  | .mark depth issue => .mark (depth + 1) issue
  | .attach depth finding => .attach (depth + 1) finding

theorem below?_lowered (a : Amendment) : a.lowered.below? = some a := by cases a <;> rfl

theorem ownIssue?_lowered (a : Amendment) : a.lowered.ownIssue? = none := by cases a <;> rfl

theorem filterMap_below?_map_lowered (as : List Amendment) :
    (as.map lowered).filterMap below? = as := by
  induction as with
  | nil => rfl
  | cons a as ih => rw [List.map_cons, List.filterMap_cons_some (below?_lowered a), ih]

theorem filterMap_ownIssue?_map_lowered (as : List Amendment) :
    (as.map lowered).filterMap ownIssue? = [] := by
  induction as with
  | nil => rfl
  | cons a as ih => rw [List.map_cons, List.filterMap_cons_none (ownIssue?_lowered a), ih]

end Amendment

/-- A finding that is reported, and the amendments that are made to it afterwards. -/
structure Emission where
  finding : Finding
  amendments : List Amendment := []
deriving DecidableEq, Repr

/-! ## Making amendments -/

namespace Diagnostic

variable {d : Diagnostic}

/-- Marks the main note with an issue. -/
def withIssue (d : Diagnostic) (issue : Issue) : Diagnostic :=
  { d with note := { d.note with issue? := some issue } }

/-- Changes the note at a depth and what is attached below it; there may be no note that deep. -/
def modifyAt (f : Diagnostic → Diagnostic) : Nat → Diagnostic → Diagnostic
  | 0, d => f d
  | depth + 1, d =>
    match d.child? with
    | some child => d.attach (modifyAt f depth child)
    | none => d

/-- Makes one amendment. -/
def amend (d : Diagnostic) : Amendment → Diagnostic
  | .mark depth issue => d.modifyAt (·.withIssue issue) depth
  | .attach depth finding => d.modifyAt (·.attach finding.diagnostic) depth

/-- Makes amendments in order. -/
def amendAll (d : Diagnostic) (amendments : List Amendment) : Diagnostic :=
  amendments.foldl amend d

theorem notes_attach (d child : Diagnostic) : (d.attach child).notes = d.note :: child.notes := rfl

theorem notes_of_child? {child : Diagnostic} (h : d.child? = some child) :
    d.notes = d.note :: child.notes := by
  obtain ⟨note, _ | ⟨n, ns⟩⟩ := d
  · exact nomatch h
  · obtain rfl := Option.some.inj h
    rfl

theorem notes_of_child?_eq_none (h : d.child? = none) : d.notes = [d.note] := by
  obtain ⟨note, _ | ⟨n, ns⟩⟩ := d
  · rfl
  · exact nomatch h

/-- A change below the main note leaves that note alone. -/
theorem note_modifyAt_succ (f : Diagnostic → Diagnostic) (depth : Nat) (d : Diagnostic) :
    (d.modifyAt f (depth + 1)).note = d.note := by
  simp only [modifyAt]
  split <;> rfl

/-- A change below the main note is one of what is attached to it. -/
theorem child?_modifyAt_succ (f : Diagnostic → Diagnostic) (depth : Nat) (d : Diagnostic) :
    (d.modifyAt f (depth + 1)).child? = d.child?.map (modifyAt f depth) := by
  simp only [modifyAt]
  cases h : d.child? with
  | some child => rfl
  | none => exact h

/-! ## The main note -/

/-- An amendment leaves the main note as it is, except for the issue. -/
theorem note_amend (d : Diagnostic) (a : Amendment) :
    (d.amend a).note = { d.note with issue? := a.ownIssue?.or d.note.issue? } := by
  cases a with
  | mark depth issue =>
    cases depth with
    | zero => rfl
    | succ depth => exact note_modifyAt_succ _ _ _
  | attach depth finding =>
    cases depth with
    | zero => rfl
    | succ depth => exact note_modifyAt_succ _ _ _

/-- Amendments leave the main note as it is, except for the issue, which is the one that the note is
    marked with last. -/
theorem note_amendAll (d : Diagnostic) (amendments : List Amendment) :
    (d.amendAll amendments).note =
      { d.note with
        issue? := (amendments.filterMap Amendment.ownIssue?).getLast?.or d.note.issue? } := by
  simp only [amendAll]
  induction amendments generalizing d with
  | nil => rfl
  | cons a amendments ih =>
    rw [List.foldl_cons, ih, note_amend]
    cases h : a.ownIssue? with
    | none => rw [List.filterMap_cons_none h, Option.none_or]
    | some issue =>
      rw [List.filterMap_cons_some h, List.getLast?_cons, Option.some_or, Option.some_or,
        Option.or_some]

end Diagnostic

/-! ## What is attached -/

namespace Amendment

/-- The last finding that is attached to the main note, with the amendments that are made to it from
    then on. -/
def lastAttached? : List Amendment → Option Emission
  | [] => none
  | .attach 0 finding :: amendments =>
    (lastAttached? amendments).or (some ⟨finding, amendments.filterMap below?⟩)
  | _ :: amendments => lastAttached? amendments

theorem lastAttached?_append (as bs : List Amendment) :
    lastAttached? (as ++ bs) =
      (lastAttached? bs).or
        ((lastAttached? as).map fun e => ⟨e.finding, e.amendments ++ bs.filterMap below?⟩) := by
  fun_induction lastAttached? as with
  | case1 => simp
  | case2 finding as ih =>
    rw [List.cons_append, lastAttached?, ih, List.filterMap_append]
    cases lastAttached? bs <;> cases lastAttached? as <;> rfl
  | case3 a as hne ih =>
    rw [List.cons_append, lastAttached?, ih]
    exact hne

theorem lastAttached?_map_lowered (as : List Amendment) :
    lastAttached? (as.map lowered) = none := by
  induction as with
  | nil => rfl
  | cons a as ih =>
    cases a with
    | mark depth issue => exact ih
    | attach depth finding => exact ih

end Amendment

namespace Emission

/-- The finding as a diagnostic, with its amendments. -/
def entry (e : Emission) : Diagnostic := e.finding.diagnostic.amendAll e.amendments

/-- The issue that the main note is marked with last, or that the finding had from the first. -/
def issue? (e : Emission) : Option Issue :=
  (e.amendments.filterMap Amendment.ownIssue?).getLast?.or e.finding.note.issue?

/-- The note of the finding as it was given, with its issue. -/
def note (e : Emission) : Note := { e.finding.note with issue? := e.issue? }

/-- The last finding that is attached to the main note; if none is, what was attached to it from the
    first.  Either comes with the amendments that concern it. -/
def child? (e : Emission) : Option Emission :=
  (Amendment.lastAttached? e.amendments).or
    (e.finding.child?.map fun d => ⟨.made d, e.amendments.filterMap Amendment.below?⟩)

theorem note_entry (e : Emission) : e.entry.note = e.note := by
  rw [entry, Diagnostic.note_amendAll, Finding.note_diagnostic]
  rfl

end Emission

namespace Diagnostic

/-- What is attached to the main note in the end is the last that was attached to it, amended as it
    was from then on; if nothing was, it is what was there before, with all amendments below. -/
theorem child?_amendAll (d : Diagnostic) (amendments : List Amendment) :
    (d.amendAll amendments).child? =
      ((Amendment.lastAttached? amendments).map Emission.entry).or
        (d.child?.map (·.amendAll (amendments.filterMap Amendment.below?))) := by
  -- the first amendment is made, and the others go on from what it leaves
  induction amendments generalizing d with
  | nil => simp [amendAll, Amendment.lastAttached?]
  | cons a amendments ih =>
    have hstep : d.amendAll (a :: amendments) = (d.amend a).amendAll amendments := rfl
    rw [hstep, ih]
    rcases a with ⟨_ | depth, issue⟩ | ⟨_ | depth, finding⟩
    · rfl
    · -- the diagnostic that is attached takes the step
      simp only [amend, child?_modifyAt_succ, Option.map_map]
      rfl
    · -- what was attached before is gone, unless something is attached later
      rw [Amendment.lastAttached?]
      cases Amendment.lastAttached? amendments with
      | none => rfl
      | some e => rfl
    · simp only [amend, child?_modifyAt_succ, Option.map_map]
      rfl

/-- Attaching to a note replaces all that was below it, and leaves it and all that was above. -/
theorem notes_amend_attach (d : Diagnostic) (depth : Nat) (finding : Finding) :
    (d.amend (.attach depth finding)).notes =
      if depth < d.notes.length then d.notes.take (depth + 1) ++ finding.diagnostic.notes
      else d.notes := by
  simp only [amend]
  induction depth generalizing d with
  | zero => rfl
  | succ depth ih =>
    simp only [modifyAt]
    cases h : d.child? with
    | none =>
      -- the main note is the only one
      rw [notes_of_child?_eq_none h, if_neg (by simp)]
    | some child =>
      dsimp only
      rw [notes_of_child? h, notes_attach, ih, List.length_cons]
      by_cases hdepth : depth < child.notes.length
      · rw [if_pos hdepth, if_pos (Nat.succ_lt_succ hdepth)]
        rfl
      · rw [if_neg hdepth, if_neg (mt Nat.lt_of_succ_lt_succ hdepth)]

end Diagnostic

/-- What is attached to a finding in the end was itself a finding that was amended, so that the same
    holds for what is attached to it. -/
theorem Emission.child?_entry (e : Emission) : e.entry.child? = e.child?.map entry := by
  rw [entry, Diagnostic.child?_amendAll, Finding.child?_diagnostic, child?, Option.map_or,
    Option.map_map]
  rfl

/-! ## Threads -/

/-- A finding, the issue that its note is marked with, and the findings that are then attached to
    the note, in order, each with what is attached to it in turn. -/
structure Thread where
  finding : Finding
  issue? : Option Issue := none
  replies : List Thread := []

namespace Thread

mutual

/-- The amendments that a thread makes to its finding. -/
def amendments : Thread → List Amendment
  | ⟨_, issue?, replies⟩ => issue?.toList.map (.mark 0) ++ attachments replies

/-- The amendments that attach threads to a main note, one after the other. -/
def attachments : List Thread → List Amendment
  | [] => []
  | t :: ts => .attach 0 t.finding :: (t.amendments.map .lowered ++ attachments ts)

end

/-- The finding of a thread, with all that is attached to it. -/
def emission (t : Thread) : Emission := ⟨t.finding, t.amendments⟩

theorem amendments_eq (t : Thread) :
    t.amendments = t.issue?.toList.map (.mark 0) ++ attachments t.replies := by
  cases t
  rw [amendments]

/-- What is attached marks no main note. -/
theorem filterMap_ownIssue?_attachments (ts : List Thread) :
    (attachments ts).filterMap Amendment.ownIssue? = [] := by
  induction ts with
  | nil => rfl
  | cons t ts ih =>
    rw [attachments, List.filterMap_cons_none rfl, List.filterMap_append,
      Amendment.filterMap_ownIssue?_map_lowered, ih, List.append_nil]

/-- The last of several threads is the one that stays attached, with its own amendments. -/
theorem lastAttached?_attachments (ts : List Thread) :
    Amendment.lastAttached? (attachments ts) = ts.getLast?.map emission := by
  induction ts with
  | nil => rfl
  | cons t ts ih =>
    rw [attachments, Amendment.lastAttached?, Amendment.lastAttached?_append,
      Amendment.lastAttached?_map_lowered, Option.map_none, Option.or_none, ih,
      List.filterMap_append, Amendment.filterMap_below?_map_lowered]
    cases ts with
    | nil =>
      -- the only thread is attached with all of its amendments
      rw [attachments, List.filterMap_nil, List.append_nil]
      rfl
    | cons u ts =>
      -- a later one replaces this one
      rw [List.getLast?_cons_cons, List.getLast?_cons]
      rfl

/-- The note of a thread is that of its finding, marked with its issue. -/
theorem note_entry (t : Thread) :
    t.emission.entry.note =
      { t.finding.note with issue? := t.issue?.or t.finding.note.issue? } := by
  have hissue : (t.amendments.filterMap Amendment.ownIssue?).getLast? = t.issue? := by
    rw [amendments_eq, List.filterMap_append, filterMap_ownIssue?_attachments, List.append_nil]
    cases t.issue? <;> rfl
  rw [Emission.note_entry, Emission.note, Emission.issue?, emission, hissue]

/-- What is attached to the note of a thread is the last reply. -/
theorem child?_entry (t : Thread) :
    t.emission.entry.child? =
      (t.replies.getLast?.map (·.emission.entry)).or t.finding.child? := by
  have hmarks : Amendment.lastAttached? (t.issue?.toList.map (.mark 0)) = none := by
    cases t.issue? <;> rfl
  have hlast : Amendment.lastAttached? t.amendments = t.replies.getLast?.map emission := by
    rw [amendments_eq, Amendment.lastAttached?_append, lastAttached?_attachments, hmarks,
      Option.map_none, Option.or_none]
  rw [Emission.child?_entry, Emission.child?, emission, hlast]
  cases h : t.replies.getLast? with
  | some reply => rfl
  | none =>
    -- nothing was done to what was attached from the first
    have hbelow : t.amendments.filterMap Amendment.below? = [] := by
      rw [amendments_eq, List.getLast?_eq_none_iff.mp h]
      cases t.issue? <;> rfl
    dsimp only
    rw [hbelow]
    cases t.finding.child? <;> rfl

end Thread

end Acceptor
