import Acceptor.Diagnostic.Render
import Acceptor.Proofs.Description.Faithful

/-!
# Showing places in a source that is continued

A snippet shows one line of the source, so it does not change when the source is continued behind a
line feed, as long as the place begins in the source as it was: what stands in front of the place
stays, and the line of the place still ends where it did, at the latest at the line feed that was
added.  Every place of a faithful report is of this kind, so the report looks the same next to the
longer source.

* `Snippet.of?_append_newline`           snippets of a longer source
* `Diagnostic.Faithful.render_continued` reports next to a longer source
-/

namespace Acceptor

/-- A line that is ended by `d` or by the end of the text does not change when `d` follows. -/
theorem takeWhile_append_cons_of_neg {α : Type} {p : α → Bool} {d : α} (hd : p d = false)
    (xs ys : List α) : (xs ++ d :: ys).takeWhile p = xs.takeWhile p := by
  induction xs with
  | nil => exact List.takeWhile_cons_of_neg (by simp [hd])
  | cons x xs ih =>
    rw [List.cons_append, List.takeWhile_cons, List.takeWhile_cons, ih]

/-- A place in a source is shown in the same way when the source is continued. -/
theorem Snippet.of?_append_newline {cs : List Char} {span : Span} {cut : List Char × List Char}
    (h : Text.splitAtByte? span.start cs = some cut) (more : List Char) :
    of? (cs ++ '\n' :: more) span = of? cs span := by
  obtain ⟨before, after⟩ := cut
  obtain ⟨hcs, hbefore⟩ := Text.splitAtByte?_eq_some_iff.mp h
  have hlonger : Text.splitAtByte? span.start (cs ++ '\n' :: more) =
      some (before, after ++ '\n' :: more) := by
    refine Text.splitAtByte?_eq_some_iff.mpr ⟨?_, hbefore⟩
    rw [hcs, List.append_assoc]
  -- the line of the place ends where it did
  have hline : (after ++ '\n' :: more).takeWhile (· != '\n') = after.takeWhile (· != '\n') :=
    takeWhile_append_cons_of_neg (by simp) after more
  simp only [of?]
  rw [hlonger, h]
  dsimp only
  rw [hline]

/-- What a faithful report is about begins in the source. -/
theorem Diagnostic.Faithful.exists_cut {source : String} {d : Diagnostic} (h : d.Faithful source)
    {n : Note} (hn : n ∈ d.notes) {span : Span} (hspan : n.span? = some span) :
    ∃ cut, Text.splitAtByte? span.start source.toList = some cut := by
  rcases h n hn span hspan with rfl | hmarks
  · -- the end of the source
    exact ⟨(source.toList, []), Text.splitAtByte?_eq_some_iff.mpr ⟨by simp, rfl⟩⟩
  · obtain ⟨text, hslice, -⟩ := hmarks.exists_text
    obtain ⟨before, after, hsource, hstart, -⟩ := Text.slice?_eq_some_iff.mp hslice
    refine ⟨(before, text.toList ++ after), Text.splitAtByte?_eq_some_iff.mpr ⟨?_, hstart.symm⟩⟩
    rw [hsource, List.append_assoc]

/-- A faithful report looks the same next to a source that is continued. -/
theorem Diagnostic.Faithful.render_continued {source : String} {d : Diagnostic}
    (h : d.Faithful source) (more : String) (color : Bool) :
    d.render (source ++ "\n" ++ more) color = d.render source color := by
  have hchars : (source ++ "\n" ++ more).toList = source.toList ++ '\n' :: more.toList := by
    simp
  have hnote : ∀ n ∈ d.notes,
      n.fragments (source ++ "\n" ++ more).toList = n.fragments source.toList := by
    intro n hn
    simp only [Note.fragments]
    cases hspan : n.span? with
    | none => rfl
    | some span =>
      obtain ⟨cut, hcut⟩ := h.exists_cut hn hspan
      rw [Option.bind_some, Option.bind_some, hchars, Snippet.of?_append_newline hcut]
  simp only [render]
  rw [List.flatMap_congr hnote]

theorem Log.render_continued {source : String} {log : Log}
    (h : ∀ d ∈ log.entries, d.Faithful source) (more : String) (color : Bool) :
    log.render (source ++ "\n" ++ more) color = log.render source color := by
  simp only [render]
  apply List.map_congr_left
  intro d hd
  exact (h d (Array.mem_toList_iff.mp hd)).render_continued more color

end Acceptor
