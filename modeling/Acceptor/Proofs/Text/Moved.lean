import Mathlib.Data.List.Forall2
import Acceptor.Proofs.Text.Places

/-!
# Texts at other places

The same text may stand at different places of two sources.  Which pairs of places are of interest
is left open here: `R` is any relation between the spans of one source and those of the other, such
as "the second one is so many bytes further back", "both are shown in the same way", or no condition
at all.  A piece is `Moved` if it has the same characters in both sources and `R` relates the places
of every stretch of it.

Cutting at separators, trimming and cutting at a character look at characters only, so they take
moved pieces to moved pieces.

* `Piece.Moved.part`              a stretch of a moved piece
* `Piece.Moved.pieces`            the pieces between separators
* `Piece.Moved.linesAt`           the lines of a text
* `Located.TextMoved.words`       the words of a line
* `Located.Moved.map_value_eq`    the values of moved lists are the same
-/

namespace Acceptor

/-- The characters `mid` of a piece, which stand behind the characters `before` of it. -/
def Piece.part (p : Piece) (before mid : List Char) : Piece :=
  ⟨p.start + Text.byteLength before, mid⟩

/-- The pieces have the same characters, and `R` relates the two places of every stretch of
    them. -/
structure Piece.Moved (R : Span → Span → Prop) (p p' : Piece) : Prop where
  chars_eq : p.chars = p'.chars
  span_part : ∀ before mid after, p.chars = before ++ mid ++ after →
    R (p.part before mid).token.span (p'.part before mid).token.span

/-- The values are equal, and `R` relates their places. -/
structure Located.Moved {α : Type} (R : Span → Span → Prop) (t t' : Located α) : Prop where
  value_eq : t.value = t'.value
  span : R t.span t'.span

/-- The tokens have the same text, and `R` relates their places and those of all stretches of
    them. -/
structure Located.TextMoved (R : Span → Span → Prop) (t t' : Token) : Prop where
  text : (Piece.ofToken t).Moved R (Piece.ofToken t')
  span : R t.span t'.span

variable {R : Span → Span → Prop}

namespace Piece

/-! ## Pieces -/

theorem part_part (p : Piece) (before mid before' mid' : List Char) :
    (p.part before mid).part before' mid' = p.part (before ++ before') mid' := by
  simp only [part]
  rw [Text.byteLength_append, Nat.add_assoc]

namespace Moved

variable {p p' : Piece}

/-- A stretch of a moved piece is moved. -/
theorem part (h : p.Moved R p') (before mid after : List Char)
    (hchars : p.chars = before ++ mid ++ after) :
    (p.part before mid).Moved R (p'.part before mid) where
  chars_eq := rfl
  span_part before' mid' after' hmid := by
    rw [part_part, part_part]
    refine h.span_part _ _ (after' ++ after) ?_
    rw [hchars, show mid = before' ++ mid' ++ after' from hmid]
    simp only [List.append_assoc]

theorem span (h : p.Moved R p') : R p.token.span p'.token.span := by
  have hwhole (q : Piece) : q.part [] q.chars = q := rfl
  have hspan := h.span_part [] p.chars [] (by simp)
  rwa [hwhole, h.chars_eq, hwhole] at hspan

/-- A moved piece is moved as a token. -/
theorem token (h : p.Moved R p') : p.token.TextMoved R p'.token where
  text := by rwa [ofToken_token, ofToken_token]
  span := h.span

theorem trim (h : p.Moved R p') : p.trim.Moved R p'.trim := by
  have hpart (q : Piece) :
      q.trim = q.part (q.chars.takeWhile Text.isBlank) (Text.trim q.chars) := rfl
  obtain ⟨bs, hbs, -⟩ := Text.exists_trimEnd_append (Text.trimStart p.chars)
  have hchars : p.chars = p.chars.takeWhile Text.isBlank ++ Text.trim p.chars ++ bs := by
    rw [List.append_assoc, show Text.trim p.chars ++ bs = Text.trimStart p.chars from hbs.symm]
    exact List.takeWhile_append_dropWhile.symm
  rw [hpart, hpart, ← h.chars_eq]
  exact h.part _ _ bs hchars

theorem isEmpty_eq (h : p.Moved R p') : p.isEmpty = p'.isEmpty :=
  congrArg List.isEmpty h.chars_eq

/-- Moved pieces are cut at the same character. -/
theorem cutAt? (h : p.Moved R p') (c : Char) :
    p.cutAt? c = none ∧ p'.cutAt? c = none ∨
      ∃ before after before' after', p.cutAt? c = some (before, after) ∧
        p'.cutAt? c = some (before', after') ∧ before.Moved R before' ∧
        after.Moved R after' := by
  simp only [Piece.cutAt?]
  rw [← h.chars_eq]
  cases hspan : p.chars.span (· != c) with
  | mk before rest =>
    cases rest with
    | nil => exact .inl ⟨rfl, rfl⟩
    | cons d after =>
      obtain ⟨-, -, hchars⟩ := Text.span_bne_eq_iff.mp hspan
      -- both sides are stretches of the piece
      have hafter (q : Piece) : (⟨q.start + Text.byteLength before + d.utf8Size, after⟩ : Piece) =
          q.part (before ++ [d]) after := by
        simp [Piece.part, Nat.add_assoc]
      refine .inr ⟨_, _, _, _, rfl, rfl, h.part [] before (d :: after) hchars, ?_⟩
      rw [hafter, hafter]
      exact h.part _ after [] (by simp [hchars])

/-- Moved pieces are cut at the same separators. -/
theorem pieces (h : p.Moved R p') (sep : Char → Bool) :
    List.Forall₂ (Moved R) (Text.pieces sep p.start p.chars)
      (Text.pieces sep p'.start p'.chars) := by
  obtain ⟨base, cs⟩ := p
  obtain ⟨base', cs'⟩ := p'
  obtain rfl : cs = cs' := h.chars_eq
  revert base'
  apply Text.pieces_induction (motive := fun base cs ps =>
    ∀ base', (⟨base, cs⟩ : Piece).Moved R ⟨base', cs⟩ →
      List.Forall₂ (Moved R) ps (Text.pieces sep base' cs))
  · intro base xs hxs base' h
    rw [Text.pieces_of_not_sep base' hxs]
    exact .cons h .nil
  · intro base xs d ys hxs hd ih base' h
    rw [Text.pieces_append_cons base' hxs hd]
    refine .cons (h.part [] xs (d :: ys) rfl) (ih _ ?_)
    -- the rest stands behind the first piece and the separator
    have hrest (b : Nat) : (⟨b + Text.byteLength xs + d.utf8Size, ys⟩ : Piece) =
        (⟨b, xs ++ d :: ys⟩ : Piece).part (xs ++ [d]) ys := by
      simp [Piece.part, Nat.add_assoc]
    rw [hrest, hrest]
    exact h.part _ ys [] (by simp)

/-- Moved pieces that are not empty, as tokens. -/
theorem tokens {ps ps' : List Piece} (h : List.Forall₂ (Moved R) ps ps') :
    List.Forall₂ (Located.TextMoved R) ((ps.filter (! ·.isEmpty)).map Piece.token)
      ((ps'.filter (! ·.isEmpty)).map Piece.token) := by
  refine List.rel_map (fun _ _ hp => hp.token) (List.rel_filter ?_ h)
  intro p p' hp
  dsimp only
  rw [hp.isEmpty_eq]

/-- The lines of a moved text are moved. -/
theorem linesAt (h : p.Moved R p') :
    List.Forall₂ (Located.TextMoved R) (Text.linesAt p.start p.chars)
      (Text.linesAt p'.start p'.chars) :=
  tokens (List.rel_map (fun _ _ hp => Moved.trim hp) (h.pieces (· == '\n')))

end Moved

end Piece

/-! ## Tokens -/

namespace Located.TextMoved

variable {t t' : Token}

theorem moved (h : t.TextMoved R t') : t.Moved R t' where
  value_eq := String.toList_inj.mp h.text.chars_eq
  span := h.span

theorem value_eq (h : t.TextMoved R t') : t.value = t'.value := h.moved.value_eq

/-- The words of a moved line are moved. -/
theorem words (h : t.TextMoved R t') : List.Forall₂ (TextMoved R) t.words t'.words :=
  Piece.Moved.tokens (h.text.pieces Text.isBlank)

/-- The words of a moved line, as values with places. -/
theorem moved_words (h : t.TextMoved R t') : List.Forall₂ (Located.Moved R) t.words t'.words :=
  h.words.imp fun _ _ hword => hword.moved

end Located.TextMoved

/-! ## Lists of related values -/

/-- Values that are computed alike from related elements are the same. -/
theorem map_eq_of_forall₂ {α β γ : Type} {S : α → β → Prop} {f : α → γ} {g : β → γ}
    (hfg : ∀ a b, S a b → f a = g b) {as : List α} {bs : List β} (h : List.Forall₂ S as bs) :
    as.map f = bs.map g := by
  have hmap : List.Forall₂ (· = ·) (as.map f) (bs.map g) :=
    List.rel_map (fun a b hab => hfg a b hab) h
  rwa [List.forall₂_eq_eq_eq] at hmap

theorem Located.Moved.map_value_eq {α : Type} {ts ts' : List (Located α)}
    (h : List.Forall₂ (Located.Moved R) ts ts') : ts.map (·.value) = ts'.map (·.value) :=
  map_eq_of_forall₂ (fun _ _ ht => ht.value_eq) h

theorem Located.Moved.head? {α : Type} {ts ts' : List (Located α)}
    (h : List.Forall₂ (Located.Moved R) ts ts') :
    Option.Rel (Located.Moved R) ts.head? ts'.head? := by
  cases h with
  | nil => exact .none
  | cons ht _ => exact .some ht

end Acceptor
