import Mathlib.Data.List.Nodup
import Mathlib.Data.List.Pairwise
import Mathlib.Logic.ExistsUnique
import Acceptor.Proofs.Text.LineEnds

/-!
# Lines and words partition a source

Cutting a text at separators gives exactly its maximal stretches without separators.  So the words
of a text are its maximal runs of characters that are not blank, and the lines of a source are what
is left of its maximal stretches without line feeds when the blanks at either end are dropped.  Both
come in the order in which they stand, and nothing more has to be said about them: `AreLines` and
`AreWords` hold of one list of tokens each.

A line feed is a blank, so no word reaches over the end of a line, and the words of the lines one
after the other are the words of the source.  No character that is not blank is lost, and none is
read twice.

* `mem_pieces_iff`          cutting gives the maximal stretches
* `isTrimmed_iff`           what trimming leaves
* `areLines_iff`, `areWords_iff`
* `Piece.words_trim`        trimming a line takes no word away
* `flatMap_words_lines`     words line by line
* `exists_word_covering`, `exists_line_covering`   no character is lost
-/

namespace Acceptor

/-- `p` is a stretch of `whole` without separators, and has a separator or an end of `whole` at
    either side. -/
def Piece.MaximalIn (sep : Char → Bool) (p whole : Piece) : Prop :=
  ∃ before after, whole.chars = before ++ p.chars ++ after ∧
    p.start = whole.start + Text.byteLength before ∧
    (∀ c ∈ p.chars, sep c = false) ∧
    (∀ c ∈ before.getLast?, sep c = true) ∧ ∀ c ∈ after.head?, sep c = true

/-- The token is what is left of `p` without the blanks at either end, and stands where it stood in
    `p`; and something is left. -/
def Located.IsTrimmed (t : Token) (p : Piece) : Prop :=
  ∃ front chars back, p.chars = front ++ chars ++ back ∧ chars ≠ [] ∧
    (∀ c ∈ front, Text.isBlank c = true) ∧ (∀ c ∈ back, Text.isBlank c = true) ∧
    (∀ c ∈ chars.head?, Text.isBlank c = false) ∧ (∀ c ∈ chars.getLast?, Text.isBlank c = false) ∧
    t = (⟨p.start + Text.byteLength front, chars⟩ : Piece).token

namespace Text

/-- The tokens are the lines of a source, in order: what trimming leaves of its stretches between
    line feeds. -/
structure AreLines (source : String) (ls : List Token) : Prop where
  mem_iff : ∀ l, l ∈ ls ↔
    ∃ line : Piece, line.MaximalIn (· == '\n') (.ofSource source) ∧ l.IsTrimmed line
  ascending : Span.Ascending (ls.map (·.span))

/-- The tokens are the words of a piece, in order: its maximal runs of characters that are not
    blank. -/
structure AreWords (whole : Piece) (ws : List Token) : Prop where
  mem_iff : ∀ w, w ∈ ws ↔
    ∃ run : Piece, run.MaximalIn isBlank whole ∧ run.chars ≠ [] ∧ w = run.token
  ascending : Span.Ascending (ws.map (·.span))

end Text

/-! ## Cutting at separators -/

namespace Piece

variable {sep : Char → Bool} {p : Piece} {base : Nat} {xs ys : List Char} {d : Char}

private theorem eq_nil_of_getLast? (hlast : ∀ c ∈ xs.getLast?, sep c = true)
    (hxs : ∀ c ∈ xs, sep c = false) : xs = [] := by
  cases h : xs.getLast? with
  | none => exact List.getLast?_eq_none_iff.mp h
  | some c =>
    have htrue := hlast c h
    rw [hxs c (List.mem_of_getLast? h)] at htrue
    exact absurd htrue Bool.false_ne_true

private theorem eq_nil_of_head? (hhead : ∀ c ∈ xs.head?, sep c = true)
    (hxs : ∀ c ∈ xs, sep c = false) : xs = [] := by
  cases xs with
  | nil => rfl
  | cons c xs =>
    have htrue := hhead c rfl
    rw [hxs c (by simp)] at htrue
    exact absurd htrue Bool.false_ne_true

/-- What stands in front of the first separator is all that can be taken without one. -/
private theorem takeWhile_stretch (hxs : ∀ c ∈ xs, sep c = false)
    (hhead : ∀ c ∈ ys.head?, sep c = true) : (xs ++ ys).takeWhile (! sep ·) = xs := by
  rw [List.takeWhile_append_of_pos fun c hc => by simp [hxs c hc]]
  cases ys with
  | nil => simp
  | cons c ys => simp [hhead c rfl]

/-- A front that ends in a separator reaches over the first separator. -/
private theorem exists_behind_separator {front rest : List Char}
    (h : xs ++ d :: ys = front ++ rest) (hxs : ∀ c ∈ xs, sep c = false)
    (hlast : ∀ c ∈ front.getLast?, sep c = true) (hne : front ≠ []) :
    ∃ more, front = xs ++ d :: more ∧ ys = more ++ rest := by
  have hout : ¬∀ c ∈ front, c ∈ xs :=
    fun hin => hne (eq_nil_of_getLast? hlast fun c hc => hxs c (hin c hc))
  rcases List.append_eq_append_iff.mp h with ⟨more, rfl, hmore⟩ | ⟨more, rfl, -⟩
  · cases more with
    | nil => exact absurd (fun c hc => by simpa using hc) hout
    | cons e more =>
      obtain ⟨rfl, hys⟩ := List.cons.inj hmore
      exact ⟨more, rfl, hys⟩
  · exact absurd (fun c hc => by simp [hc]) hout

/-- A stretch of a text without separators reaches from end to end. -/
theorem maximalIn_of_not_sep (hxs : ∀ c ∈ xs, sep c = false) :
    p.MaximalIn sep ⟨base, xs⟩ ↔ p = ⟨base, xs⟩ := by
  constructor
  · rintro ⟨before, after, hchars, hstart, -, hlast, hhead⟩
    dsimp only at hchars hstart
    have hbefore : before = [] := by
      apply eq_nil_of_getLast? hlast
      intro c hc
      exact hxs c (by simp [hchars, hc])
    have hafter : after = [] := by
      apply eq_nil_of_head? hhead
      intro c hc
      exact hxs c (by simp [hchars, hc])
    subst hbefore hafter
    cases p
    simp_all
  · rintro rfl
    exact ⟨[], [], by simp, by simp, hxs, by simp, by simp⟩

/-- A stretch either ends at the first separator or begins behind it. -/
theorem maximalIn_append_cons (hxs : ∀ c ∈ xs, sep c = false) (hd : sep d = true) :
    p.MaximalIn sep ⟨base, xs ++ d :: ys⟩ ↔
      p = ⟨base, xs⟩ ∨ p.MaximalIn sep ⟨base + Text.byteLength xs + d.utf8Size, ys⟩ := by
  constructor
  · rintro ⟨before, after, hchars, hstart, hp, hlast, hhead⟩
    dsimp only at hchars hstart
    rw [List.append_assoc] at hchars
    by_cases hbefore : before = []
    · -- both `p` and `xs` are what stands in front of the first separator
      left
      subst hbefore
      have hsame : p.chars = xs := by
        rw [← takeWhile_stretch hp hhead, ← List.nil_append (p.chars ++ after), ← hchars]
        exact takeWhile_stretch hxs (by simpa using hd)
      cases p
      simp_all
    · right
      obtain ⟨more, rfl, hys⟩ := exists_behind_separator hchars hxs hlast hbefore
      refine ⟨more, after, by simp [hys], ?_, hp, fun c hc => hlast c ?_, hhead⟩
      · rw [hstart, Text.byteLength_append, Text.byteLength_cons]
        dsimp only
        omega
      · obtain ⟨zs, rfl⟩ := List.getLast?_eq_some_iff.mp hc
        rw [← List.cons_append, ← List.append_assoc, List.getLast?_concat]
        rfl
  · rintro (rfl | ⟨before, after, hchars, hstart, hp, hlast, hhead⟩)
    · exact ⟨[], d :: ys, by simp, by simp, hxs, by simp, by simpa using hd⟩
    · dsimp only at hchars hstart
      refine ⟨xs ++ d :: before, after, by simp [hchars], ?_, hp, ?_, hhead⟩
      · rw [hstart, Text.byteLength_append, Text.byteLength_cons]
        dsimp only
        omega
      · -- the separator itself stands last if there is nothing behind it
        intro c hc
        rw [List.getLast?_append, List.getLast?_cons] at hc
        cases hbefore : before.getLast? with
        | none => simp_all
        | some e => exact hlast c (by simpa [hbefore] using hc)

/-- Cutting at separators gives exactly the maximal stretches without them. -/
theorem mem_pieces_iff (whole : Piece) :
    p ∈ Text.pieces sep whole.start whole.chars ↔ p.MaximalIn sep whole := by
  refine Text.pieces_induction
    (motive := fun base cs ps => p ∈ ps ↔ p.MaximalIn sep ⟨base, cs⟩) ?_ ?_ whole.start whole.chars
  · intro base xs hxs
    rw [List.mem_singleton, maximalIn_of_not_sep hxs]
  · intro base xs d ys hxs hd ih
    rw [List.mem_cons, maximalIn_append_cons hxs hd, ih]

end Piece

/-! ## Trimming -/

namespace Text

theorem not_blank_of_head?_trimStart (cs : List Char) :
    ∀ c ∈ (trimStart cs).head?, isBlank c = false := by
  intro c hc
  have hhead := List.head?_dropWhile_not isBlank cs
  rw [show (cs.dropWhile isBlank).head? = some c from hc] at hhead
  simpa using hhead

theorem not_blank_of_getLast?_trimEnd (cs : List Char) :
    ∀ c ∈ (trimEnd cs).getLast?, isBlank c = false := by
  intro c hc
  apply not_blank_of_head?_trimStart cs.reverse
  rw [← List.getLast?_reverse]
  exact hc

theorem trimEnd_of_blank {cs : List Char} (h : ∀ c ∈ cs, isBlank c = true) : trimEnd cs = [] := by
  have hnone : cs.reverse.dropWhile isBlank = [] :=
    List.dropWhile_eq_nil_iff.mpr fun c hc => h c (List.mem_reverse.mp hc)
  simp only [trimEnd]
  rw [hnone, List.reverse_nil]

/-- Trimming leaves a piece that is not blank without the blanks at either end. -/
theorem isTrimmed_iff {t : Token} {p : Piece} :
    t.IsTrimmed p ↔ p.trim.chars ≠ [] ∧ t = p.trim.token := by
  constructor
  · rintro ⟨front, chars, back, hchars, hne, hfront, hback, hhead, hlast, rfl⟩
    obtain ⟨c, cs, rfl⟩ := List.exists_cons_of_ne_nil hne
    have hc : isBlank c = false := hhead c rfl
    have htrim : p.trim = ⟨p.start + byteLength front, c :: trimEnd (cs ++ back)⟩ := by
      rw [← trim_append_cons p.start hfront hc, ← List.cons_append, ← List.append_assoc, ← hchars]
    -- the last character is kept, and everything behind it is blank
    have hend : c :: trimEnd (cs ++ back) = c :: cs := by
      have he := List.getLast?_eq_some_getLast hne
      obtain ⟨zs, hzs⟩ := List.getLast?_eq_some_iff.mp he
      have hkeep := trimEnd_append_cons (hlast _ he) zs back
      have hfirst := trimEnd_append_cons hc [] (cs ++ back)
      rw [trimEnd_of_blank hback] at hkeep
      rw [List.nil_append, List.nil_append] at hfirst
      rw [← hfirst, ← List.cons_append, hzs, List.append_assoc]
      exact hkeep
    rw [htrim, hend]
    exact ⟨hne, rfl⟩
  · rintro ⟨hne, rfl⟩
    obtain ⟨back, hback, hblank⟩ := exists_trimEnd_append p.trimStart.chars
    have hchars : p.chars = p.chars.takeWhile isBlank ++ p.trim.chars ++ back := by
      rw [List.append_assoc]
      exact (List.takeWhile_append_dropWhile.symm.trans (congrArg _ hback))
    refine ⟨p.chars.takeWhile isBlank, p.trim.chars, back, hchars, hne, ?_, hblank, ?_, ?_, rfl⟩
    · exact fun c hc => List.all_eq_true.mp List.all_takeWhile c hc
    · intro c hc
      apply not_blank_of_head?_trimStart p.chars
      obtain ⟨cs, hcs⟩ := List.head?_eq_some_iff.mp hc
      have hstart : trimStart p.chars = p.trim.chars ++ back := hback
      rw [hstart, hcs]
      rfl
    · exact not_blank_of_getLast?_trimEnd p.trimStart.chars

end Text

/-! ## All lines and all words -/

/-- Tokens in order are determined by which ones they are. -/
theorem Span.Ascending.ext {ss ts : List Token} (hs : Ascending (ss.map (·.span)))
    (ht : Ascending (ts.map (·.span))) (h : ∀ t, t ∈ ss ↔ t ∈ ts) : ss = ts := by
  have hperm : ss.Perm ts :=
    (List.perm_ext_iff_of_nodup (List.Nodup.of_map _ hs.nodup) (List.Nodup.of_map _ ht.nodup)).mpr h
  apply hperm.eq_of_pairwise _ (List.pairwise_map.mp hs.pairwise) (List.pairwise_map.mp ht.pairwise)
  -- no two tokens end before each other
  intro s t hsmem htmem hst hts
  have hslt := hs.start_lt_stop s.span (List.mem_map_of_mem hsmem)
  have htlt := ht.start_lt_stop t.span (List.mem_map_of_mem htmem)
  omega

namespace Text

theorem areLines_lines (source : String) : AreLines source (lines source) where
  mem_iff l := by
    simp only [lines, List.mem_map, List.mem_filter, isTrimmed_iff]
    constructor
    · rintro ⟨_, ⟨⟨line, hline, rfl⟩, hne⟩, rfl⟩
      exact ⟨line, (Piece.mem_pieces_iff (.ofSource source)).mp hline,
        by simpa [Piece.isEmpty] using hne, rfl⟩
    · rintro ⟨line, hline, hne, rfl⟩
      exact ⟨line.trim, ⟨⟨line, (Piece.mem_pieces_iff (.ofSource source)).mpr hline, rfl⟩,
        by simpa [Piece.isEmpty] using hne⟩, rfl⟩
  ascending := ascending_lines source

/-- The lines of a source are those tokens, and no others and in no other order. -/
theorem areLines_iff {source : String} {ls : List Token} :
    AreLines source ls ↔ ls = lines source := by
  constructor
  · intro h
    have hlines := areLines_lines source
    exact h.ascending.ext hlines.ascending fun l => (h.mem_iff l).trans (hlines.mem_iff l).symm
  · rintro rfl
    exact areLines_lines source

end Text

/-- The words of a piece. -/
def Piece.words (p : Piece) : List Token :=
  ((Text.pieces Text.isBlank p.start p.chars).filter (! ·.isEmpty)).map Piece.token

theorem Piece.words_token (p : Piece) : p.token.words = p.words := by
  simp only [Located.words, Text.words, token, words]
  rw [String.toList_ofList]

namespace Text

theorem areWords_words (whole : Piece) : AreWords whole whole.words where
  mem_iff w := by
    simp only [Piece.words, List.mem_map, List.mem_filter, Piece.mem_pieces_iff]
    constructor
    · rintro ⟨run, ⟨hrun, hne⟩, rfl⟩
      exact ⟨run, hrun, by simpa [Piece.isEmpty] using hne, rfl⟩
    · rintro ⟨run, hrun, hne, rfl⟩
      exact ⟨run, ⟨hrun, by simpa [Piece.isEmpty] using hne⟩, rfl⟩
  ascending := by
    rw [← Piece.words_token]
    exact ascending_words whole.token

/-- The words of a piece are those tokens, and no others and in no other order. -/
theorem areWords_iff {whole : Piece} {ws : List Token} :
    AreWords whole ws ↔ ws = whole.words := by
  constructor
  · intro h
    have hwords := areWords_words whole
    exact h.ascending.ext hwords.ascending fun w => (h.mem_iff w).trans (hwords.mem_iff w).symm
  · rintro rfl
    exact areWords_words whole

end Text

/-! ## Words line by line -/

namespace Piece

open Text (byteLength isBlank)

/-- No word reaches across a blank. -/
theorem words_append_cons (base : Nat) (xs : List Char) {b : Char} (hb : isBlank b = true)
    (ys : List Char) :
    words ⟨base, xs ++ b :: ys⟩ =
      words ⟨base, xs⟩ ++ words ⟨base + byteLength xs + b.utf8Size, ys⟩ := by
  simp only [words]
  rw [Text.pieces_append_sep_cons base xs hb, List.filter_append, List.map_append]

@[simp] theorem words_nil (base : Nat) : words ⟨base, []⟩ = [] := rfl

theorem words_blanks_append (base : Nat) {bs : List Char} (hbs : ∀ b ∈ bs, isBlank b = true)
    (xs : List Char) : words ⟨base, bs ++ xs⟩ = words ⟨base + byteLength bs, xs⟩ := by
  induction bs generalizing base with
  | nil => rfl
  | cons b bs ih =>
    have hb := words_append_cons base [] (hbs b (by simp)) (bs ++ xs)
    rw [List.nil_append] at hb
    rw [List.cons_append, hb, ih _ fun c hc => hbs c (by simp [hc]), words_nil, List.nil_append,
      Text.byteLength_nil, Text.byteLength_cons]
    congr 2
    omega

theorem words_append_blanks (base : Nat) (xs : List Char) {bs : List Char}
    (hbs : ∀ b ∈ bs, isBlank b = true) : words ⟨base, xs ++ bs⟩ = words ⟨base, xs⟩ := by
  cases bs with
  | nil => rw [List.append_nil]
  | cons b bs =>
    -- the first blank ends the words of `xs`, and there are none behind it
    have hbs' : ∀ c ∈ bs, isBlank c = true := fun c hc => hbs c (by simp [hc])
    have hrest := words_blanks_append (base + byteLength xs + b.utf8Size) hbs' []
    rw [List.append_nil] at hrest
    rw [words_append_cons base xs (hbs b (by simp)), hrest, words_nil, List.append_nil]

/-- Trimming takes no part of any word away, and the words stay where they are. -/
theorem words_trim (p : Piece) : p.trim.words = p.words := by
  obtain ⟨back, hback, hblank⟩ := Text.exists_trimEnd_append p.trimStart.chars
  have hfront : ∀ c ∈ p.chars.takeWhile isBlank, isBlank c = true :=
    fun c hc => List.all_eq_true.mp List.all_takeWhile c hc
  calc p.trim.words
    _ = words ⟨p.trimStart.start, Text.trimEnd p.trimStart.chars ++ back⟩ :=
      (words_append_blanks _ _ hblank).symm
    _ = words ⟨p.start + byteLength (p.chars.takeWhile isBlank), p.trimStart.chars⟩ := by
      rw [← hback]
      rfl
    _ = words ⟨p.start, p.chars.takeWhile isBlank ++ p.trimStart.chars⟩ :=
      (words_blanks_append _ hfront _).symm
    _ = p.words := by
      rw [show p.chars.takeWhile isBlank ++ p.trimStart.chars = p.chars from
        List.takeWhile_append_dropWhile]

end Piece

namespace Text

/-- The words of a text without line feeds, which is one line or none. -/
theorem flatMap_words_line (base : Nat) {xs : List Char} (hxs : '\n' ∉ xs) :
    (linesAt base xs).flatMap Located.words = Piece.words ⟨base, xs⟩ := by
  rw [linesAt_of_newline_not_mem base hxs, ← Piece.words_trim]
  split
  · next hempty =>
    -- a blank line has no words
    have hnil : (⟨base, xs⟩ : Piece).trim.chars = [] := List.isEmpty_iff.mp hempty
    simp only [Piece.words]
    rw [hnil]
    rfl
  · rw [List.flatMap_singleton, Piece.words_token]

theorem flatMap_words_linesAt (base : Nat) (cs : List Char) :
    (linesAt base cs).flatMap Located.words = Piece.words ⟨base, cs⟩ := by
  induction cs using line_induction generalizing base with
  | last xs hxs => exact flatMap_words_line base hxs
  | next xs ys hxs ih =>
    -- a line feed is a blank, so it ends a word as it ends a line
    have hnewline : isBlank '\n' = true := by decide
    rw [linesAt_append_newline, List.flatMap_append, flatMap_words_line base hxs, ih,
      Piece.words_append_cons base xs hnewline]
    rfl

/-- The words of the lines, one line after the other, are the words of the source. -/
theorem flatMap_words_lines (source : String) :
    (lines source).flatMap Located.words = words source 0 :=
  flatMap_words_linesAt 0 source.toList

end Text

/-! ## Every character once -/

/-- The span reaches over `size` bytes from byte offset `place` on. -/
def Span.Covers (s : Span) (place size : Nat) : Prop := s.start ≤ place ∧ place + size ≤ s.stop

/-- No two tokens in order cover the same character. -/
theorem Span.Ascending.eq_of_covers {ts : List Token} (h : Ascending (ts.map (·.span)))
    {s t : Token} (hs : s ∈ ts) (ht : t ∈ ts) {place size : Nat} (hsize : 0 < size)
    (hsc : s.span.Covers place size) (htc : t.span.Covers place size) : s = t := by
  -- of two different tokens, one ends before the other one begins
  have hapart : ts.Pairwise fun s t => s.span.stop ≤ t.span.start ∨ t.span.stop ≤ s.span.start :=
    (List.pairwise_map.mp h.pairwise).imp fun hlt => .inl (Nat.le_of_lt hlt)
  have hsymm : Std.Symm fun s t : Token =>
      s.span.stop ≤ t.span.start ∨ t.span.stop ≤ s.span.start := ⟨fun _ _ => Or.symm⟩
  by_contra hne
  obtain ⟨hs₁, hs₂⟩ := hsc
  obtain ⟨ht₁, ht₂⟩ := htc
  rcases hapart.forall hs ht hne with hlt | hlt <;> omega

namespace Text

/-- Cutting loses no character but the separators. -/
theorem exists_piece_covering {sep : Char → Bool} {c : Char} (hc : sep c = false) (base : Nat)
    {cs before after : List Char} (hcs : cs = before ++ c :: after) :
    ∃ p ∈ pieces sep base cs, p.chars ≠ [] ∧
      p.token.span.Covers (base + byteLength before) c.utf8Size := by
  refine pieces_induction
    (motive := fun base cs ps => ∀ before after, cs = before ++ c :: after →
      ∃ p ∈ ps, p.chars ≠ [] ∧ p.token.span.Covers (base + byteLength before) c.utf8Size)
    ?_ ?_ base cs before after hcs
  · rintro base xs - before after rfl
    refine ⟨_, List.mem_singleton_self _, by simp, ?_⟩
    simp only [Span.Covers, Piece.token, Piece.stop, byteLength_append, byteLength_cons]
    omega
  · intro base xs d ys _ hd ih before after hcs
    have hne : d ≠ c := fun h => by simp [h, hc] at hd
    rcases List.append_eq_append_iff.mp hcs with ⟨more, rfl, hmore⟩ | ⟨more, rfl, hmore⟩
    · -- the character stands behind the first separator
      cases more with
      | nil => exact absurd (List.cons.inj hmore).1 hne
      | cons e more =>
        obtain ⟨rfl, hys⟩ := List.cons.inj hmore
        obtain ⟨p, hp, hpne, hcovers⟩ := ih more after hys
        refine ⟨p, List.mem_cons_of_mem _ hp, hpne, ?_⟩
        simp only [Span.Covers, byteLength_append, byteLength_cons] at hcovers ⊢
        omega
    · -- it stands before it
      cases more with
      | nil => exact absurd (List.cons.inj hmore).1.symm hne
      | cons e more =>
        obtain ⟨rfl, -⟩ := List.cons.inj hmore
        refine ⟨_, List.mem_cons_self, by simp, ?_⟩
        simp only [Span.Covers, Piece.token, Piece.stop, byteLength_append, byteLength_cons]
        omega

variable {source : String} {before after : List Char} {c : Char}

theorem exists_word_covering (hc : isBlank c = false)
    (hsource : source.toList = before ++ c :: after) :
    ∃ w ∈ words source 0, w.span.Covers (byteLength before) c.utf8Size := by
  obtain ⟨p, hp, hne, hcovers⟩ := exists_piece_covering hc 0 hsource
  rw [Nat.zero_add] at hcovers
  refine ⟨p.token, List.mem_map_of_mem (List.mem_filter.mpr ⟨hp, ?_⟩), hcovers⟩
  simpa [Piece.isEmpty] using hne

/-- A line covers whatever its words do. -/
theorem exists_line_covering (hc : isBlank c = false)
    (hsource : source.toList = before ++ c :: after) :
    ∃ l ∈ lines source, l.span.Covers (byteLength before) c.utf8Size := by
  obtain ⟨w, hw, hstart, hstop⟩ := exists_word_covering hc hsource
  rw [← flatMap_words_lines, List.mem_flatMap] at hw
  obtain ⟨l, hl, hw⟩ := hw
  have hplaced := (placed_of_mem_words hw).1
  refine ⟨l, hl, Nat.le_trans hplaced.start_le hstart, Nat.le_trans hstop ?_⟩
  rw [← (placed_of_mem_lines hl).1.stop_ofToken]
  exact hplaced.stop_le

end Text

/-! ## Main result -/

/-- Lines and words partition a source without loss.  The lines of a source are exactly what
    trimming leaves of its stretches between line feeds, and the words of a text that stands at some
    byte offset are exactly its maximal runs of characters that are not blank, each at its place and
    in order.  So the words of the lines, one line after the other, are the words of the source with
    the same places, and every character that is not blank lies in one word and in one line. -/
theorem Text.lines_and_words_partition (source text : String) (base : Nat) :
    (∀ ls, ls = lines source ↔ AreLines source ls) ∧
      (∀ ws, ws = words text base ↔ AreWords ⟨base, text.toList⟩ ws) ∧
      (lines source).flatMap Located.words = words source 0 ∧
      ∀ before c after, source.toList = before ++ c :: after → isBlank c = false →
        (∃! w, w ∈ words source 0 ∧ w.span.Covers (byteLength before) c.utf8Size) ∧
          ∃! l, l ∈ lines source ∧ l.span.Covers (byteLength before) c.utf8Size := by
  have hwords : words text base = Piece.words ⟨base, text.toList⟩ := rfl
  rw [hwords]
  refine ⟨fun ls => areLines_iff.symm, fun ws => areWords_iff.symm, flatMap_words_lines source,
    fun before c after hsource hc => ⟨?_, ?_⟩⟩
  · obtain ⟨w, hw, hcovers⟩ := exists_word_covering hc hsource
    have hascending : Span.Ascending ((words source 0).map (·.span)) :=
      (areWords_words (.ofSource source)).ascending
    exact ⟨w, ⟨hw, hcovers⟩, fun w' h =>
      hascending.eq_of_covers h.1 hw c.utf8Size_pos h.2 hcovers⟩
  · obtain ⟨l, hl, hcovers⟩ := exists_line_covering hc hsource
    exact ⟨l, ⟨hl, hcovers⟩, fun l' h =>
      (ascending_lines source).eq_of_covers h.1 hl c.utf8Size_pos h.2 hcovers⟩

end Acceptor
