import Acceptor.Proofs.Text.Places

/-!
# The two ways of ending a line

A line may be ended by a line feed or by a carriage return and a line feed.  The carriage return is
a blank at the end of a line, so the line is read as the same text in both cases.

* `line_induction`         a text is read line by line
* `exists_last_line`       the line that a text ends in
* `linesAt_append_blank`   blanks at the end of a line
* `crlf`                   the other line ends
-/

namespace Acceptor.Text

/-! ## Beginnings and ends -/

/-- A line begins behind `front`, which is empty or ends with a line feed. -/
def LineBegins (front : List Char) : Prop := ∀ c ∈ front.getLast?, c = '\n'

/-- A line ends before `rest`, which is empty or begins with a line feed. -/
def LineEnds (rest : List Char) : Prop := ∀ c ∈ rest.head?, c = '\n'

theorem lineBegins_nil : LineBegins [] := by simp [LineBegins]

theorem lineBegins_append_newline (front : List Char) : LineBegins (front ++ ['\n']) := by
  simp [LineBegins]

theorem lineEnds_nil : LineEnds [] := by simp [LineEnds]

theorem lineEnds_newline (rest : List Char) : LineEnds ('\n' :: rest) := by simp [LineEnds]

/-- The characters of a line stand between two line feeds. -/
theorem takeWhile_line {xs rest : List Char} (hxs : '\n' ∉ xs) (hrest : LineEnds rest) :
    (xs ++ rest).takeWhile (· != '\n') = xs := by
  have hline : ∀ c ∈ xs, (c != '\n') = true := by
    intro c hc
    exact bne_iff_ne.mpr fun h => hxs (h ▸ hc)
  rw [List.takeWhile_append_of_pos hline]
  cases rest with
  | nil => simp
  | cons c rest =>
    obtain rfl : c = '\n' := hrest c rfl
    simp

/-- A text is a front with a last line behind it. -/
theorem exists_last_line (cs : List Char) :
    ∃ front xs, cs = front ++ xs ∧ LineBegins front ∧ '\n' ∉ xs := by
  induction cs using List.reverseRecOn with
  | nil => exact ⟨[], [], rfl, lineBegins_nil, by simp⟩
  | append_singleton cs c ih =>
    obtain ⟨front, xs, rfl, hfront, hxs⟩ := ih
    by_cases hc : c = '\n'
    · subst hc
      exact ⟨front ++ xs ++ ['\n'], [], by simp, lineBegins_append_newline _, by simp⟩
    · exact ⟨front, xs ++ [c], by simp, hfront, by simp [hxs, Ne.symm hc]⟩

/-- A text is a first line, perhaps with a line feed and a shorter text behind it. -/
theorem line_induction {motive : List Char → Prop} (last : ∀ xs, '\n' ∉ xs → motive xs)
    (next : ∀ xs ys, '\n' ∉ xs → motive ys → motive (xs ++ '\n' :: ys)) (cs : List Char) :
    motive cs := by
  have hline {xs : List Char} (hxs : ∀ c ∈ xs, (c == '\n') = false) : '\n' ∉ xs :=
    fun hmem => nomatch hxs _ hmem
  refine pieces_induction (motive := fun _ cs _ => motive cs) (fun _ xs hxs => last xs (hline hxs))
    (fun _ xs d ys hxs hd ih => ?_) 0 cs
  obtain rfl : d = '\n' := eq_of_beq hd
  exact next xs ys (hline hxs) ih

/-! ## Trimming -/

/-- The one line of a text without line feeds. -/
theorem linesAt_of_newline_not_mem (base : Nat) {xs : List Char} (hxs : '\n' ∉ xs) :
    linesAt base xs = if (trim xs).isEmpty then [] else [(⟨base, xs⟩ : Piece).trim.token] := by
  have hempty : (⟨base, xs⟩ : Piece).trim.isEmpty = (trim xs).isEmpty := rfl
  have hpieces : pieces (· == '\n') base xs = [⟨base, xs⟩] :=
    pieces_of_not_sep base fun c hc => beq_eq_false_iff_ne.mpr fun h => hxs (h ▸ hc)
  simp only [linesAt]
  rw [hpieces, List.map_singleton, List.filter_singleton, hempty]
  cases (trim xs).isEmpty <;> rfl

/-- A text is blank, or there are only blanks in front of its first other character. -/
theorem exists_first_not_blank (xs : List Char) :
    (∀ c ∈ xs, isBlank c = true) ∨
      ∃ bs c ds, xs = bs ++ c :: ds ∧ (∀ b ∈ bs, isBlank b = true) ∧ isBlank c = false := by
  induction xs with
  | nil => exact .inl (by simp)
  | cons x xs ih =>
    cases hx : isBlank x with
    | false => exact .inr ⟨[], x, xs, rfl, by simp, hx⟩
    | true =>
      rcases ih with hall | ⟨bs, c, ds, rfl, hbs, hc⟩
      · exact .inl (by simpa [hx] using hall)
      · exact .inr ⟨x :: bs, c, ds, rfl, by simpa [hx] using hbs, hc⟩

theorem trim_of_blank {xs : List Char} (h : ∀ c ∈ xs, isBlank c = true) : trim xs = [] := by
  have hstart : trimStart xs = [] := List.dropWhile_eq_nil_iff.mpr h
  simp only [trim]
  rw [hstart]
  rfl

/-- Blanks in front are trimmed away, and the line stands behind them. -/
theorem trim_append_cons (base : Nat) {bs : List Char} (hbs : ∀ b ∈ bs, isBlank b = true)
    {c : Char} (hc : isBlank c = false) (ds : List Char) :
    (⟨base, bs ++ c :: ds⟩ : Piece).trim = ⟨base + byteLength bs, c :: trimEnd ds⟩ := by
  have hstop : ¬ isBlank c = true := by simp [hc]
  have hstart : trimStart (bs ++ c :: ds) = c :: ds := by
    simp only [trimStart]
    rw [List.dropWhile_append_of_pos hbs, List.dropWhile_cons_of_neg hstop]
  have hblanks : (bs ++ c :: ds).takeWhile isBlank = bs := by
    rw [List.takeWhile_append_of_pos hbs, List.takeWhile_cons_of_neg hstop, List.append_nil]
  have hend := trimEnd_append_cons hc [] ds
  simp only [Piece.trim, Piece.trimStart]
  rw [hblanks, hstart]
  exact congrArg _ hend

/-- A blank at the end of a line is trimmed away. -/
theorem linesAt_append_blank (base : Nat) {xs : List Char} (hxs : '\n' ∉ xs) {b : Char}
    (hb : isBlank b = true) (hne : b ≠ '\n') : linesAt base (xs ++ [b]) = linesAt base xs := by
  have hxs' : '\n' ∉ xs ++ [b] := by simp [hxs, Ne.symm hne]
  rw [linesAt_of_newline_not_mem base hxs, linesAt_of_newline_not_mem base hxs']
  rcases exists_first_not_blank xs with hall | ⟨bs, c, ds, rfl, hbs, hc⟩
  · have hall' : ∀ c ∈ xs ++ [b], isBlank c = true := by
      simpa [or_imp, forall_and, hb] using hall
    rw [trim_of_blank hall, trim_of_blank hall']
    rfl
  · have hend : trimEnd (ds ++ [b]) = trimEnd ds := by
      simp only [trimEnd]
      rw [List.reverse_append, List.reverse_singleton, List.singleton_append,
        List.dropWhile_cons_of_pos hb]
    have htrim : (⟨base, bs ++ c :: ds ++ [b]⟩ : Piece).trim =
        (⟨base, bs ++ c :: ds⟩ : Piece).trim := by
      rw [List.append_assoc, List.cons_append, trim_append_cons base hbs hc,
        trim_append_cons base hbs hc, hend]
    rw [htrim, show trim (bs ++ c :: ds ++ [b]) = trim (bs ++ c :: ds) from
      congrArg Piece.chars htrim]

/-! ## Carriage returns -/

/-- The characters without carriage returns at their end. -/
def dropReturns (cs : List Char) : List Char := (cs.reverse.dropWhile (· == '\r')).reverse

theorem dropReturns_isPrefix (cs : List Char) : dropReturns cs <+: cs := by
  have hsuffix := List.dropWhile_suffix (l := cs.reverse) (· == '\r')
  simp only [dropReturns]
  rw [← List.reverse_suffix, List.reverse_reverse]
  exact hsuffix

theorem dropReturns_append_return (cs : List Char) :
    dropReturns (cs ++ ['\r']) = dropReturns cs := by
  simp [dropReturns]

/-- The text with every line feed written as a carriage return and a line feed. -/
def crlf (cs : List Char) : List Char :=
  cs.flatMap fun c => if c = '\n' then ['\r', '\n'] else [c]

example : crlf "a\n\nb".toList = "a\r\n\r\nb".toList := by decide

@[simp] theorem crlf_append (cs ds : List Char) : crlf (cs ++ ds) = crlf cs ++ crlf ds :=
  List.flatMap_append

theorem crlf_cons_newline (cs : List Char) : crlf ('\n' :: cs) = '\r' :: '\n' :: crlf cs := rfl

theorem crlf_of_newline_not_mem {cs : List Char} (h : '\n' ∉ cs) : crlf cs = cs := by
  induction cs with
  | nil => rfl
  | cons c cs ih =>
    rw [List.mem_cons, not_or] at h
    simp only [crlf] at ih ⊢
    rw [List.flatMap_cons, if_neg (Ne.symm h.1), ih h.2]
    rfl

theorem count_newline_crlf (cs : List Char) : (crlf cs).count '\n' = cs.count '\n' := by
  induction cs with
  | nil => rfl
  | cons c cs ih =>
    simp only [crlf] at ih ⊢
    rw [List.flatMap_cons, List.count_append, ih, List.count_cons, Nat.add_comm]
    split <;> simp_all

theorem lineBegins_crlf {front : List Char} (h : LineBegins front) : LineBegins (crlf front) := by
  cases front using List.reverseRecOn with
  | nil => exact h
  | append_singleton front c =>
    obtain rfl : c = '\n' := h c (by simp)
    rw [crlf_append, show crlf ['\n'] = ['\r'] ++ ['\n'] from rfl, ← List.append_assoc]
    exact lineBegins_append_newline _

end Acceptor.Text
