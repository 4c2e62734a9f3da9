import Mathlib.Data.List.DropRight
import Acceptor.Proofs.Text.Pieces

/-!
# The places of lines and words

Every piece that is cut out of a text is a stretch of it and says at which byte offset it stands:
this is `Piece.Within`.  Cutting at separators, trimming and cutting at a colon all give pieces
within the piece they are applied to, and so does one after the other.  A token that is made of a
piece within a source is found in the source at its span, and `Text.slice?` looks it up.

Pieces that are cut out one after the other also stand one after the other, with at least the
separator between them.

* `Piece.Within.trans`      a stretch of a stretch
* `pieces_induction`        cutting piece by piece
* `lines_append_newline`    cutting a source that is continued
* `slice?_of_placed`        a token is what stands at its span
* `placed_of_mem_lines`, `placed_of_mem_words`   lines in a source, words in a line
* `ascending_lines`, `ascending_words`           and their order
-/

namespace Acceptor

namespace Piece

/-- `p` is a stretch of the characters of `q`, and placed where they stand. -/
def Within (p q : Piece) : Prop :=
  ∃ before after, q.chars = before ++ p.chars ++ after ∧
    p.start = q.start + Text.byteLength before

namespace Within

variable {p q r : Piece}

theorem refl (p : Piece) : p.Within p := ⟨[], [], by simp, by simp⟩

theorem trans (hpq : p.Within q) (hqr : q.Within r) : p.Within r := by
  obtain ⟨b₁, a₁, hq, hp⟩ := hpq
  obtain ⟨b₂, a₂, hr, hq'⟩ := hqr
  refine ⟨b₂ ++ b₁, a₁ ++ a₂, ?_, ?_⟩
  · rw [hr, hq]
    simp [List.append_assoc]
  · rw [hp, hq', Text.byteLength_append]
    omega

theorem start_le (h : p.Within q) : q.start ≤ p.start := by
  obtain ⟨before, after, -, hstart⟩ := h
  omega

theorem stop_le (h : p.Within q) : p.stop ≤ q.stop := by
  obtain ⟨before, after, hchars, hstart⟩ := h
  simp only [stop]
  rw [hstart, hchars, Text.byteLength_append, Text.byteLength_append]
  omega

theorem subset (h : p.Within q) : p.chars ⊆ q.chars := by
  obtain ⟨before, after, hchars, -⟩ := h
  rw [hchars]
  intro c hc
  simp [hc]

end Within

@[simp] theorem ofToken_token (p : Piece) : ofToken p.token = p := by
  simp [ofToken, token]

theorem trimStart_within (p : Piece) : p.trimStart.Within p :=
  ⟨p.chars.takeWhile Text.isBlank, [], by
    rw [List.append_nil]
    exact List.takeWhile_append_dropWhile.symm, rfl⟩

/-- Trimming leaves a stretch of what is trimmed. -/
theorem trim_within (p : Piece) : p.trim.Within p := by
  have hend : p.trim.Within p.trimStart := by
    obtain ⟨bs, hbs, -⟩ := Text.exists_trimEnd_append p.trimStart.chars
    exact ⟨[], bs, hbs, by simp [trim]⟩
  exact hend.trans p.trimStart_within

/-- Both sides of a cut are stretches of what is cut. -/
theorem within_of_cutAt? {c : Char} {p before after : Piece}
    (h : p.cutAt? c = some (before, after)) :
    before.Within p ∧ after.Within p := by
  simp only [cutAt?] at h
  split at h
  · simp at h
  · next xs d ys hspan =>
    obtain ⟨rfl, rfl⟩ := Prod.mk.inj (Option.some.inj h)
    obtain ⟨-, -, hchars⟩ := Text.span_bne_eq_iff.mp hspan
    exact ⟨⟨[], d :: ys, hchars, by simp⟩, ⟨xs ++ [d], [], by simp [hchars],
      by simp [Nat.add_assoc]⟩⟩

end Piece

/-! ## Cutting piece by piece -/

namespace Text

variable {sep : Char → Bool}

private theorem piecesFrom_append (found : Array Piece) (start here : Nat) (taken : List Char)
    {xs : List Char} (hxs : ∀ c ∈ xs, sep c = false) (ys : List Char) :
    piecesFrom sep found start here taken (xs ++ ys) =
      piecesFrom sep found start (here + byteLength xs) (xs.reverse ++ taken) ys := by
  -- characters that are no separators go to the piece under way
  induction xs generalizing here taken with
  | nil => rfl
  | cons c xs ih =>
    rw [List.cons_append, piecesFrom, if_neg (by simp [hxs c (by simp)]),
      ih _ _ fun d hd => hxs d (by simp [hd]), byteLength_cons, List.reverse_cons, Nat.add_assoc,
      List.append_assoc, List.singleton_append]

private theorem piecesFrom_eq (found : Array Piece) (start here : Nat) (taken cs : List Char) :
    piecesFrom sep found start here taken cs =
      found.toList ++ piecesFrom sep #[] start here taken cs := by
  induction cs generalizing found start here taken with
  | nil => simp [piecesFrom]
  | cons c cs ih =>
    simp only [piecesFrom]
    split
    · rw [ih, ih (Array.push #[] _)]
      simp
    · exact ih ..

/-- Without separators there is one piece. -/
theorem pieces_of_not_sep (base : Nat) {xs : List Char} (hxs : ∀ c ∈ xs, sep c = false) :
    pieces sep base xs = [⟨base, xs⟩] := by
  have h := piecesFrom_append #[] base base [] hxs []
  rw [List.append_nil] at h
  simp only [pieces]
  rw [h]
  simp [piecesFrom]

/-- The first piece ends at the first separator. -/
theorem pieces_append_cons (base : Nat) {xs : List Char} (hxs : ∀ c ∈ xs, sep c = false) {d : Char}
    (hd : sep d = true) (ys : List Char) :
    pieces sep base (xs ++ d :: ys) =
      ⟨base, xs⟩ :: pieces sep (base + byteLength xs + d.utf8Size) ys := by
  simp only [pieces]
  rw [piecesFrom_append _ _ _ _ hxs, piecesFrom, if_pos hd, piecesFrom_eq]
  simp

/-- What holds of a text without separators, and of one whose first piece is followed by a separator
    and a text of which it holds, holds of every text and its pieces. -/
theorem pieces_induction {motive : Nat → List Char → List Piece → Prop}
    (last : ∀ base xs, (∀ c ∈ xs, sep c = false) → motive base xs [⟨base, xs⟩])
    (next : ∀ base xs d ys, (∀ c ∈ xs, sep c = false) → sep d = true →
      motive (base + byteLength xs + d.utf8Size) ys
        (pieces sep (base + byteLength xs + d.utf8Size) ys) →
      motive base (xs ++ d :: ys)
        (⟨base, xs⟩ :: pieces sep (base + byteLength xs + d.utf8Size) ys))
    (base : Nat) (cs : List Char) : motive base cs (pieces sep base cs) := by
  -- every text is a first piece, perhaps with a separator and a shorter text behind it
  have hsplit : cs = cs.takeWhile (! sep ·) ++ cs.dropWhile (! sep ·) :=
    List.takeWhile_append_dropWhile.symm
  have hfirst : ∀ c ∈ cs.takeWhile (! sep ·), sep c = false := by
    intro c hc
    simpa using List.all_eq_true.mp List.all_takeWhile c hc
  cases hrest : cs.dropWhile (! sep ·) with
  | nil =>
    rw [hrest, List.append_nil] at hsplit
    rw [← hsplit] at hfirst
    rw [pieces_of_not_sep base hfirst]
    exact last base cs hfirst
  | cons d ys =>
    have hd : sep d = true := by
      have hhead := List.head?_dropWhile_not (! sep ·) cs
      rw [hrest] at hhead
      simpa using hhead
    rw [hrest] at hsplit
    have hshorter : ys.length < cs.length := by
      rw [hsplit, List.length_append, List.length_cons]
      omega
    rw [hsplit, pieces_append_cons base hfirst hd]
    exact next base _ d ys hfirst hd (pieces_induction last next _ ys)
termination_by cs.length

/-- Behind a separator, cutting starts afresh. -/
theorem pieces_append_sep_cons (base : Nat) (xs : List Char) {d : Char} (hd : sep d = true)
    (ys : List Char) :
    pieces sep base (xs ++ d :: ys) =
      pieces sep base xs ++ pieces sep (base + byteLength xs + d.utf8Size) ys := by
  refine pieces_induction
    (motive := fun base xs ps => pieces sep base (xs ++ d :: ys) =
      ps ++ pieces sep (base + byteLength xs + d.utf8Size) ys) ?_ ?_ base xs
  · intro base xs hxs
    exact pieces_append_cons base hxs hd ys
  · intro base xs c zs hxs hc ih
    have hlength : base + byteLength (xs ++ c :: zs) + d.utf8Size =
        base + byteLength xs + c.utf8Size + byteLength zs + d.utf8Size := by
      rw [byteLength_append, byteLength_cons]
      omega
    rw [List.append_assoc, List.cons_append, pieces_append_cons base hxs hc, ih, hlength,
      List.cons_append]

/-- The lines of a text go on behind a line feed. -/
theorem linesAt_append_newline (base : Nat) (xs ys : List Char) :
    linesAt base (xs ++ '\n' :: ys) =
      linesAt base xs ++ linesAt (base + byteLength xs + 1) ys := by
  have hpieces : pieces (· == '\n') base (xs ++ '\n' :: ys) =
      pieces (· == '\n') base xs ++ pieces (· == '\n') (base + byteLength xs + 1) ys :=
    pieces_append_sep_cons base xs rfl ys
  simp only [linesAt]
  rw [hpieces, List.map_append, List.filter_append, List.map_append]

/-- The lines of a source that is continued behind a line feed. -/
theorem lines_append_newline (source more : String) :
    lines (source ++ "\n" ++ more) =
      lines source ++ linesAt (byteLength source.toList + 1) more.toList := by
  have hchars : (source ++ "\n" ++ more).toList = source.toList ++ '\n' :: more.toList := by
    simp
  have hlines := linesAt_append_newline 0 source.toList more.toList
  rw [Nat.zero_add] at hlines
  simp only [lines, linesAt] at hlines ⊢
  rw [hchars, hlines]

theorem within_of_mem_pieces {base : Nat} {cs : List Char} {p : Piece}
    (hp : p ∈ pieces sep base cs) : p.Within ⟨base, cs⟩ := by
  refine pieces_induction (motive := fun base cs ps => ∀ p ∈ ps, p.Within ⟨base, cs⟩)
    ?_ ?_ base cs p hp
  · intro base xs _ p hp
    rw [List.mem_singleton.mp hp]
    exact .refl _
  · intro base xs d ys _ _ ih p hp
    rcases List.mem_cons.mp hp with rfl | hp
    · exact ⟨[], d :: ys, by simp, by simp⟩
    · -- the rest stands behind the first piece and the separator
      refine (ih p hp).trans ⟨xs ++ [d], [], by simp, ?_⟩
      simp [Nat.add_assoc]

theorem not_sep_of_mem_pieces {base : Nat} {cs : List Char} {p : Piece}
    (hp : p ∈ pieces sep base cs) : ∀ c ∈ p.chars, sep c = false := by
  refine pieces_induction (motive := fun _ _ ps => ∀ p ∈ ps, ∀ c ∈ p.chars, sep c = false)
    ?_ ?_ base cs p hp
  · intro base xs hxs p hp
    rwa [List.mem_singleton.mp hp]
  · intro base xs d ys hxs _ ih p hp
    rcases List.mem_cons.mp hp with rfl | hp
    · exact hxs
    · exact ih p hp

/-- At least the separator stands between one piece and the next. -/
theorem pairwise_pieces (sep : Char → Bool) (base : Nat) (cs : List Char) :
    (pieces sep base cs).Pairwise fun p q => p.stop < q.start := by
  refine pieces_induction
    (motive := fun _ _ ps => ps.Pairwise fun p q => p.stop < q.start) ?_ ?_ base cs
  · intro base xs _
    exact List.pairwise_singleton ..
  · intro base xs d ys _ _ ih
    refine List.pairwise_cons.mpr ⟨fun q hq => ?_, ih⟩
    have hle := (within_of_mem_pieces hq).start_le
    have hpos := d.utf8Size_pos
    simp only [Piece.stop]
    dsimp only at hle
    omega

/-! ## Trimmed texts -/

theorem trimStart_trimEnd_trimStart (cs : List Char) :
    trimStart (trimEnd (trimStart cs)) = trimEnd (trimStart cs) := by
  cases hcs : trimStart cs with
  | nil => rfl
  | cons c ds =>
    -- the first character is not blank, so it is kept when the back is trimmed
    have hc : isBlank c = false := by
      have hhead := List.head?_dropWhile_not isBlank cs
      rw [show cs.dropWhile isBlank = c :: ds from hcs] at hhead
      simpa using hhead
    have hkeep := trimEnd_append_cons hc [] ds
    rw [List.nil_append, List.nil_append] at hkeep
    rw [hkeep, trimStart_cons_of_not_blank hc]

/-- Nothing is left to trim after trimming. -/
theorem trim_trim (cs : List Char) : trim (trim cs) = trim cs := by
  have hend : trimEnd (trimEnd (trimStart cs)) = trimEnd (trimStart cs) :=
    List.rdropWhile_idempotent isBlank (trimStart cs)
  calc trim (trim cs)
    _ = trimEnd (trimStart (trimEnd (trimStart cs))) := rfl
    _ = trim cs := by rw [trimStart_trimEnd_trimStart, hend]; rfl

/-- A line does not begin with a blank. -/
theorem IsLine.isBlank_of_toList_eq_cons {l : String} (hl : IsLine l) {c : Char} {cs : List Char}
    (hchars : l.toList = c :: cs) : isBlank c = false := by
  have htrim : trim (c :: cs) = c :: cs := by
    rw [← hchars, ← String.toList_ofList (l := trim l.toList)]
    exact congrArg String.toList hl.trimmed_eq
  have hstart : (c :: cs).dropWhile isBlank = c :: cs := by
    have htwice := trimStart_trimEnd_trimStart (c :: cs)
    rwa [show trimEnd (trimStart (c :: cs)) = c :: cs from htrim] at htwice
  have hhead := List.head?_dropWhile_not isBlank (c :: cs)
  rw [hstart] at hhead
  simpa using hhead

/-- A line has a word. -/
theorem IsLine.words_ne_nil {line : Token} (hline : IsLine line.value) : line.words ≠ [] := by
  have htexts : line.words.map (·.value) = wordTexts line.value.toList := map_value_words _ _
  intro hnil
  rw [hnil, List.map_nil] at htexts
  cases hchars : line.value.toList with
  | nil => exact hline.ne_empty (String.toList_eq_nil_iff.mp hchars)
  | cons c cs =>
    rw [hchars] at htexts
    exact wordTexts_cons_ne_nil (hline.isBlank_of_toList_eq_cons hchars) cs htexts.symm

theorem isLine_token {p : Piece} (hne : p.chars ≠ []) (hnewline : '\n' ∉ p.chars)
    (htrim : trim p.chars = p.chars) : IsLine p.token.value where
  ne_empty := by simpa [Piece.token] using hne
  no_newline := by simpa [Piece.token] using hnewline
  trimmed_eq := by simp [Piece.token, trimmed, htrim]

theorem IsWord.isLine {w : String} (hw : IsWord w) : IsLine w where
  ne_empty := hw.ne_empty
  no_newline := hw.newline_not_mem
  trimmed_eq := by simp [trimmed, trim_of_not_blank hw.not_blank]

end Text

/-! ## Tokens in a source -/

/-- The whole source as a piece. -/
def Piece.ofSource (source : String) : Piece := ⟨0, source.toList⟩

/-- The token has the text and the span of a stretch of `whole`. -/
def Located.PlacedIn (t : Token) (whole : Piece) : Prop := ∃ p : Piece, p.Within whole ∧ t = p.token

namespace Located.PlacedIn

variable {t line : Token} {whole : Piece}

theorem trans (ht : t.PlacedIn (.ofToken line)) (hline : line.PlacedIn whole) :
    t.PlacedIn whole := by
  obtain ⟨p, hp, rfl⟩ := ht
  obtain ⟨q, hq, rfl⟩ := hline
  rw [Piece.ofToken_token] at hp
  exact ⟨p, hp.trans hq, rfl⟩

theorem start_le (ht : t.PlacedIn whole) : whole.start ≤ t.span.start := by
  obtain ⟨p, hp, rfl⟩ := ht
  exact hp.start_le

theorem stop_le (ht : t.PlacedIn whole) : t.span.stop ≤ whole.stop := by
  obtain ⟨p, hp, rfl⟩ := ht
  exact hp.stop_le

theorem stop_ofToken (hline : line.PlacedIn whole) :
    (Piece.ofToken line).stop = line.span.stop := by
  obtain ⟨p, -, rfl⟩ := hline
  rw [Piece.ofToken_token]
  rfl

end Located.PlacedIn

/-- What is left of a part of a line when it is trimmed is a line of its own. -/
theorem Piece.placedIn_of_trim {line : Token} {p : Piece} (hp : p.Within (.ofToken line))
    (hline : Text.IsLine line.value) (hne : p.trim.chars ≠ []) :
    p.trim.token.PlacedIn (.ofToken line) ∧ Text.IsLine p.trim.token.value := by
  have hwithin := p.trim_within.trans hp
  refine ⟨⟨p.trim, hwithin, rfl⟩, Text.isLine_token hne (fun hmem => ?_) (Text.trim_trim p.chars)⟩
  exact hline.no_newline (hwithin.subset hmem)

namespace Text

/-- The text between two byte offsets, if they are in order and neither lies past the end or inside
    a character. -/
def slice? (source : String) (span : Span) : Option String :=
  (splitAtByte? span.stop source.toList).bind fun upTo =>
    (splitAtByte? span.start upTo.1).map fun cut => String.ofList cut.2

theorem slice?_eq_some_iff {source text : String} {span : Span} :
    slice? source span = some text ↔ ∃ before after,
      source.toList = before ++ text.toList ++ after ∧ span.start = byteLength before ∧
        span.stop = byteLength before + byteLength text.toList := by
  simp only [slice?]
  rw [Option.bind_eq_some_iff]
  constructor
  · intro h
    obtain ⟨⟨front, after⟩, hstop, hmap⟩ := h
    obtain ⟨⟨before, chars⟩, hstart, rfl⟩ := Option.map_eq_some_iff.mp hmap
    obtain ⟨hsource, hfront⟩ := splitAtByte?_eq_some_iff.mp hstop
    obtain ⟨rfl, hbefore⟩ := splitAtByte?_eq_some_iff.mp hstart
    refine ⟨before, after, by simpa using hsource, hbefore.symm, ?_⟩
    simpa using hfront.symm
  · intro h
    obtain ⟨before, after, hsource, hstart, hstop⟩ := h
    refine ⟨(before ++ text.toList, after), splitAtByte?_eq_some_iff.mpr ⟨hsource, ?_⟩, ?_⟩
    · rw [hstop, byteLength_append]
    · rw [splitAtByte?_eq_some_iff.mpr ⟨rfl, hstart.symm⟩]
      simp

example : slice? "a é" ⟨2, 4⟩ = some "é" := by decide
example : slice? "a é" ⟨2, 3⟩ = none := by decide

/-- A token in a source is what stands at its span. -/
theorem slice?_of_placed {source : String} {t : Token} (h : t.PlacedIn (.ofSource source)) :
    slice? source t.span = some t.value := by
  obtain ⟨p, ⟨before, after, hsource, hstart⟩, rfl⟩ := h
  refine slice?_eq_some_iff.mpr ⟨before, after, ?_, ?_, ?_⟩
  · simpa [Piece.token, Piece.ofSource] using hsource
  · simpa [Piece.token, Piece.ofSource] using hstart
  · simpa [Piece.token, Piece.ofSource, Piece.stop] using hstart

/-- The lines of a source are stretches of it. -/
theorem placed_of_mem_lines {source : String} {l : Token} (hl : l ∈ lines source) :
    l.PlacedIn (.ofSource source) ∧ IsLine l.value := by
  simp only [lines, List.mem_map, List.mem_filter] at hl
  obtain ⟨_, ⟨⟨p, hp, rfl⟩, hne⟩, rfl⟩ := hl
  have hwithin := p.trim_within
  refine ⟨⟨p.trim, hwithin.trans (within_of_mem_pieces hp), rfl⟩, isLine_token ?_ ?_ ?_⟩
  · simpa [Piece.isEmpty] using hne
  · intro hmem
    simpa using not_sep_of_mem_pieces hp _ (hwithin.subset hmem)
  · exact trim_trim p.chars

/-- The words of a line are stretches of it. -/
theorem placed_of_mem_words {line w : Token} (hw : w ∈ line.words) :
    w.PlacedIn (.ofToken line) ∧ IsWord w.value := by
  simp only [Located.words, words, List.mem_map, List.mem_filter] at hw
  obtain ⟨p, ⟨hp, hne⟩, rfl⟩ := hw
  refine ⟨⟨p, within_of_mem_pieces hp, rfl⟩, ?_, ?_⟩
  · simpa [Piece.isEmpty, Piece.token] using hne
  · simpa [Piece.token] using not_sep_of_mem_pieces hp

end Text

/-! ## Order -/

/-- No span is empty, and each one ends before the next one begins. -/
structure Span.Ascending (spans : List Span) : Prop where
  start_lt_stop : ∀ s ∈ spans, s.start < s.stop
  pairwise : spans.Pairwise fun s t => s.stop < t.start

namespace Span.Ascending

variable {spans : List Span}

theorem sublist {spans' : List Span} (h : Ascending spans) (hsub : spans'.Sublist spans) :
    Ascending spans' where
  start_lt_stop s hs := h.start_lt_stop s (hsub.subset hs)
  pairwise := h.pairwise.sublist hsub

theorem cons {s : Span} (hs : s.start < s.stop) (hnext : ∀ t ∈ spans, s.stop < t.start)
    (h : Ascending spans) : Ascending (s :: spans) where
  start_lt_stop t ht := by
    rcases List.mem_cons.mp ht with rfl | ht
    · exact hs
    · exact h.start_lt_stop t ht
  pairwise := List.pairwise_cons.mpr ⟨hnext, h.pairwise⟩

/-- No span occurs twice. -/
theorem nodup (h : Ascending spans) : spans.Nodup := by
  refine h.pairwise.imp_of_mem fun {s t} hs _ hst heq => ?_
  have hlt := h.start_lt_stop s hs
  subst heq
  omega

end Span.Ascending

namespace Piece

theorem start_lt_stop {p : Piece} (h : p.chars ≠ []) : p.start < p.stop := by
  have hpos : Text.byteLength p.chars ≠ 0 := mt Text.byteLength_eq_zero_iff.mp h
  simp only [stop]
  omega

theorem ascending_map_token {ps : List Piece} (hne : ∀ p ∈ ps, p.chars ≠ [])
    (h : ps.Pairwise fun p q => p.stop < q.start) :
    Span.Ascending ((ps.map token).map (·.span)) where
  start_lt_stop s hs := by
    simp only [List.map_map, List.mem_map] at hs
    obtain ⟨p, hp, rfl⟩ := hs
    exact start_lt_stop (hne p hp)
  pairwise := by
    rw [List.map_map]
    exact List.pairwise_map.mpr h

end Piece

namespace Text

theorem ascending_lines (source : String) : Span.Ascending ((lines source).map (·.span)) := by
  refine Piece.ascending_map_token (fun p hp => ?_) (List.Pairwise.filter _ ?_)
  · simpa [Piece.isEmpty] using (List.mem_filter.mp hp).2
  · -- trimming only widens the gaps
    refine List.pairwise_map.mpr ((pairwise_pieces _ _ _).imp fun {p q} hpq => ?_)
    have hstop := p.trim_within.stop_le
    have hstart := q.trim_within.start_le
    omega

theorem ascending_words (line : Token) : Span.Ascending (line.words.map (·.span)) := by
  refine Piece.ascending_map_token (fun p hp => ?_) ((pairwise_pieces _ _ _).filter _)
  simpa [Piece.isEmpty] using (List.mem_filter.mp hp).2

end Text

end Acceptor
