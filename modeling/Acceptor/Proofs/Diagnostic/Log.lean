import Acceptor.Proofs.Diagnostic.Amendment

/-!
# Keeping a log

Findings are put into a log one after the other, and until the next one is put in, the newest entry
can be amended in its place.  The log keeps a flag beside its entries that tells whether some main
note is an error; putting a finding in may set it, and nothing else touches it.  That is enough,
because no amendment changes the level of a note.  It also means that amending the entry in place
and amending the diagnostic before it is put in come to the same.

* `Log.toList_entries_emitAll`, `Log.hasError_emitAll`   what a log holds
* `Log.amend_emit`                                       amending in place, and before
* `Log.after_eq`                                         a log after any findings
* `emitting_keeps_summary`                               its flag, entries and issues
-/

namespace Acceptor

namespace Log

/-! ## Diagnostics that are finished -/

/-- A log holds what was emitted. -/
theorem toList_entries_emitAll (log : Log) (ds : List Diagnostic) :
    (log.emitAll ds).entries.toList = log.entries.toList ++ ds := by
  simp only [emitAll]
  induction ds generalizing log with
  | nil => simp
  | cons d ds ih => rw [List.foldl_cons, ih]; simp [emit]

/-- A log has an error exactly if one was emitted. -/
theorem hasError_emitAll (log : Log) (ds : List Diagnostic) :
    (log.emitAll ds).hasError = (log.hasError || ds.any (·.note.level == .error)) := by
  simp only [emitAll]
  induction ds generalizing log with
  | nil => simp
  | cons d ds ih =>
    rw [List.foldl_cons, ih, List.any_cons, ← Bool.or_assoc]
    rfl

/-! ## Amending entries in place -/

/-- Amends the newest entry. -/
def amend (log : Log) (amendment : Amendment) : Log :=
  { log with entries := log.entries.modify (log.entries.size - 1) (·.amend amendment) }

/-- Puts a finding in and amends its entry. -/
def perform (log : Log) (e : Emission) : Log :=
  e.amendments.foldl amend (log.emit e.finding.diagnostic)

/-- The log after findings were put in, one after the other. -/
def after (log : Log) (emissions : List Emission) : Log := emissions.foldl perform log

/-- To amend the entry that was just put in is to put in the amended diagnostic. -/
theorem amend_emit (log : Log) (d : Diagnostic) (a : Amendment) :
    (log.emit d).amend a = log.emit (d.amend a) := by
  have hentries : (log.entries.push d).modify log.entries.size (·.amend a) =
      log.entries.push (d.amend a) := by
    grind
  -- the flag was set for the level that the note had before
  have hlevel : (d.amend a).note.level = d.note.level := by rw [Diagnostic.note_amend]
  simp only [amend, emit, Array.size_push, Nat.add_sub_cancel]
  rw [hentries, hlevel]

theorem perform_eq (log : Log) (e : Emission) : log.perform e = log.emit e.entry :=
  List.foldl_hom log.emit fun d a => log.amend_emit d a

/-- A log after any findings holds them as they were amended. -/
theorem after_eq (log : Log) (emissions : List Emission) :
    log.after emissions = log.emitAll (emissions.map Emission.entry) := by
  simp only [after, emitAll, List.foldl_map]
  congr 1
  funext log e
  exact log.perform_eq e

theorem toList_entries_after (log : Log) (emissions : List Emission) :
    (log.after emissions).entries.toList =
      log.entries.toList ++ emissions.map Emission.entry := by
  rw [after_eq, toList_entries_emitAll]

/-- An error counts if it was put in itself, however the entries were amended. -/
theorem hasError_after_iff (emissions : List Emission) :
    (empty.after emissions).hasError = true ↔ ∃ e ∈ emissions, e.finding.note.level = .error := by
  rw [after_eq, hasError_emitAll, List.any_map, Bool.or_eq_true, List.any_eq_true]
  constructor
  · rintro (h | ⟨e, he, hlevel⟩)
    · exact nomatch h
    · rw [Function.comp_apply, e.note_entry, beq_iff_eq] at hlevel
      exact ⟨e, he, hlevel⟩
  · rintro ⟨e, he, hlevel⟩
    refine .inr ⟨e, he, ?_⟩
    rw [Function.comp_apply, e.note_entry, beq_iff_eq]
    exact hlevel

theorem mem_entries_after {emissions : List Emission} {d : Diagnostic} :
    d ∈ (empty.after emissions).entries ↔ ∃ e ∈ emissions, e.entry = d := by
  rw [← Array.mem_toList_iff, toList_entries_after]
  exact List.mem_map

/-- The flag tells whether there is an entry that is an error. -/
theorem hasError_after_iff_entries (emissions : List Emission) :
    (empty.after emissions).hasError = true ↔
      ∃ d ∈ (empty.after emissions).entries, d.note.level = .error := by
  rw [hasError_after_iff]
  constructor
  · rintro ⟨e, he, hlevel⟩
    refine ⟨e.entry, mem_entries_after.mpr ⟨e, he, rfl⟩, ?_⟩
    rw [e.note_entry]
    exact hlevel
  · rintro ⟨d, hd, hlevel⟩
    obtain ⟨e, he, rfl⟩ := mem_entries_after.mp hd
    rw [e.note_entry] at hlevel
    exact ⟨e, he, hlevel⟩

/-- The issues are those that the findings were marked with last. -/
theorem issues_after (emissions : List Emission) :
    (empty.after emissions).issues = emissions.filterMap Emission.issue? := by
  have hissue : (fun d : Diagnostic => d.note.issue?) ∘ Emission.entry = Emission.issue? := by
    funext e
    rw [Function.comp_apply, e.note_entry]
    rfl
  rw [issues, toList_entries_after, ← hissue, ← List.filterMap_map]
  rfl

end Log

/-! ## A log beside its source -/

/-- A source with the log of what is reported about it. -/
structure Context where
  source : String
  log : Log := .empty
deriving DecidableEq, Repr

namespace Context

/-- Puts a finding into the log and amends its entry there. -/
def perform (context : Context) (e : Emission) : Context :=
  { context with log := context.log.perform e }

/-- The context after findings were put in, one after the other. -/
def after (context : Context) (emissions : List Emission) : Context :=
  emissions.foldl perform context

theorem after_eq (context : Context) (emissions : List Emission) :
    context.after emissions = { context with log := context.log.after emissions } := by
  simp only [after]
  induction emissions generalizing context with
  | nil => rfl
  | cons e emissions ih =>
    rw [List.foldl_cons, ih]
    rfl

end Context

/-! ## Main result -/

/-- After findings were put into an empty log, or into that of a new context, and each was amended
    in its place in any way before the next one:

    the flag is set exactly if the main note of some entry is an error, and that is so exactly if
    one was put in; what is attached to an entry does not count;

    the entries are the findings in order, their main notes as they were given, and nothing that is
    put in later changes them; the issues are those that the main notes were last marked with;

    what is attached to a note is the last finding that was attached to it, with what was done to
    that one since, and so on below; of a thread of findings, it is the last reply;

    to attach something to a note removes all that was below it, and nothing else. -/
theorem emitting_keeps_summary (emissions : List Emission) :
    let log := Log.empty.after emissions
    (log.hasError = true ↔ ∃ d ∈ log.entries, d.note.level = .error) ∧
      (log.hasError = true ↔ ∃ e ∈ emissions, e.finding.note.level = .error) ∧
      log.entries.toList = emissions.map Emission.entry ∧
      log.entries.toList.map (·.note) = emissions.map Emission.note ∧
      (∀ later, log.entries.toList <+: (log.after later).entries.toList) ∧
      log.issues = emissions.filterMap Emission.issue? ∧
      (∀ e : Emission, e.entry.note = e.note ∧ e.entry.child? = e.child?.map Emission.entry) ∧
      (∀ t : Thread,
        t.emission.entry.note =
            { t.finding.note with issue? := t.issue?.or t.finding.note.issue? } ∧
          t.emission.entry.child? =
            (t.replies.getLast?.map (·.emission.entry)).or t.finding.child?) ∧
      (∀ (d : Diagnostic) (depth : Nat) (finding : Finding),
        (d.amend (.attach depth finding)).notes =
          if depth < d.notes.length then d.notes.take (depth + 1) ++ finding.diagnostic.notes
          else d.notes) ∧
      ∀ source, ({ source } : Context).after emissions = { source, log } := by
  intro log
  have hentries : log.entries.toList = emissions.map Emission.entry :=
    Log.toList_entries_after _ _
  have hnotes : log.entries.toList.map (·.note) = emissions.map Emission.note := by
    rw [hentries, List.map_map]
    exact List.map_congr_left fun e _ => e.note_entry
  refine ⟨Log.hasError_after_iff_entries emissions, Log.hasError_after_iff emissions, hentries,
    hnotes, fun later => ?_, Log.issues_after emissions, fun e => ⟨e.note_entry, e.child?_entry⟩,
    fun t => ⟨t.note_entry, t.child?_entry⟩, Diagnostic.notes_amend_attach,
    fun source => Context.after_eq _ _⟩
  rw [Log.toList_entries_after log later]
  exact List.prefix_append _ _

/-- An error that is attached to a warning does not count. -/
example : (Log.empty.after
    [⟨.warning "odd line" none, [.attach 0 (.error "no such key" none)]⟩]).hasError = false := rfl

end Acceptor
