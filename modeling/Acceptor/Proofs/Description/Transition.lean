import Mathlib.Data.List.Forall2
import Acceptor.Description.Basic
import Acceptor.Proofs.Text.Pieces

/-!
# Reading transition tokens

A token is read as a transition in the delimited form exactly if it is what that transition is
written as, so the form loses nothing and cannot be misread, whatever the symbol is.  The compact
form is recognised by its length, and no token is long enough for one form and short enough for the
other.

* `delimited?_eq_some_iff`   the delimited form
* `compact?_eq_some_iff`     the compact form
* `isSome_compact?_iff`      words in the compact form
* `read?_of_length_eq_three` the two forms do not overlap
* `read?_eq_some_iff`        either form
* `forall₂_readTransitions`  the transitions that are read from words
-/

namespace Acceptor

namespace Transition

/-- The transition in the delimited form. -/
def delimited (t : Transition) : String :=
  t.source ++ "," ++ String.singleton t.symbol ++ "," ++ t.target

theorem toList_delimited (t : Transition) :
    t.delimited.toList = t.source.toList ++ ',' :: t.symbol :: ',' :: t.target.toList := by
  simp only [delimited]
  simp

/-- A name that can stand in the delimited form. -/
structure IsDelimitable (name : String) : Prop where
  ne_empty : name ≠ ""
  comma_not_mem : ',' ∉ name.toList

theorem delimited?_eq_some_iff {token : String} {t : Transition} :
    delimited? token = some t ↔
      token = t.delimited ∧ IsDelimitable t.source ∧ IsDelimitable t.target := by
  constructor
  · intro h
    simp only [delimited?] at h
    split at h
    · exact nomatch h
    · next source head rest hfront =>
      obtain ⟨rfl, hsource, htoken⟩ := Text.span_bne_eq_iff.mp hfront
      split at h
      · next target head symbol hback =>
        obtain ⟨rfl, htarget, hrest⟩ := Text.span_bne_eq_iff.mp hback
        split at h
        · exact nomatch h
        · next hne =>
          obtain rfl := Option.some.inj h
          rw [Bool.or_eq_true, not_or, List.isEmpty_iff, List.isEmpty_iff] at hne
          refine ⟨?_, ⟨by simpa using hne.1, by simpa using hsource⟩,
            ⟨by simpa using hne.2, by simpa using htarget⟩⟩
          -- the rest was taken apart from its end
          have hrest : rest = symbol :: ',' :: target.reverse := by
            rw [← List.reverse_reverse rest, hrest]
            simp
          apply String.toList_inj.mp
          rw [toList_delimited, htoken, hrest, String.toList_ofList, String.toList_ofList]
      · exact nomatch h
  · -- the first and the last comma are found, wherever the symbol is one too
    intro hparts
    obtain ⟨htoken, hsource, htarget⟩ := hparts
    subst htoken
    have hfront : t.delimited.toList.span (· != ',') =
        (t.source.toList, ',' :: t.symbol :: ',' :: t.target.toList) :=
      Text.span_bne_eq_iff.mpr ⟨rfl, hsource.comma_not_mem, t.toList_delimited⟩
    have hback : (t.symbol :: ',' :: t.target.toList).reverse.span (· != ',') =
        (t.target.toList.reverse, [',', t.symbol]) := by
      apply Text.span_bne_eq_iff.mpr
      refine ⟨rfl, ?_, by simp⟩
      rw [List.mem_reverse]
      exact htarget.comma_not_mem
    have hne : ¬(t.source.toList.isEmpty || t.target.toList.reverse.isEmpty) = true := by
      simp [hsource.ne_empty, htarget.ne_empty]
    simp only [delimited?]
    rw [hfront]
    dsimp only
    rw [hback]
    dsimp only
    rw [if_neg hne, List.reverse_reverse, String.ofList_toList, String.ofList_toList]

/-- A token in the delimited form has at least five characters. -/
theorem five_le_length_of_delimited? {token : String} {t : Transition}
    (h : delimited? token = some t) : 5 ≤ token.length := by
  obtain ⟨rfl, hsource, htarget⟩ := delimited?_eq_some_iff.mp h
  have hs : t.source.toList ≠ [] := by simpa using hsource.ne_empty
  have ht : t.target.toList ≠ [] := by simpa using htarget.ne_empty
  have hspos := List.length_pos_iff.mpr hs
  have htpos := List.length_pos_iff.mpr ht
  rw [← String.length_toList, toList_delimited, List.length_append, List.length_cons,
    List.length_cons, List.length_cons]
  omega

/-- A token in the compact form is one character for each part of the transition. -/
theorem compact?_eq_some_iff {token : String} {t : Transition} :
    compact? token = some t ↔
      token.toList = t.source.toList ++ t.symbol :: t.target.toList ∧
        t.source.length = 1 ∧ t.target.length = 1 := by
  simp only [compact?]
  constructor
  · intro h
    split at h
    · next p c q hchars =>
      obtain rfl := Option.some.inj h
      exact ⟨by simp [hchars], by simp, by simp⟩
    · exact nomatch h
  · rintro ⟨htoken, hsource, htarget⟩
    rw [← String.length_toList, List.length_eq_one_iff] at hsource htarget
    obtain ⟨p, hp⟩ := hsource
    obtain ⟨q, hq⟩ := htarget
    have hsource : t.source = String.singleton p := String.toList_inj.mp (by simpa using hp)
    have htarget : t.target = String.singleton q := String.toList_inj.mp (by simpa using hq)
    rw [htoken, hp, hq, List.singleton_append]
    dsimp only
    rw [← hsource, ← htarget]

/-- The compact form is recognised by its length. -/
theorem isSome_compact?_iff {token : String} :
    (compact? token).isSome = true ↔ token.length = 3 := by
  rw [← String.length_toList]
  simp only [compact?]
  split
  · next h => simp [h]
  · next h =>
    constructor
    · intro hnone
      exact nomatch hnone
    · intro hlength
      -- three characters are a case of their own
      match hchars : token.toList, hlength with
      | [p, c, q], _ => exact absurd hchars (h p c q)

/-- A token of three characters can only be meant in the compact form. -/
theorem read?_of_length_eq_three {token : String} (h : token.length = 3) :
    read? token = compact? token := by
  have hnone : delimited? token = none := by
    cases hdelimited : delimited? token with
    | none => rfl
    | some t =>
      have hlength := five_le_length_of_delimited? hdelimited
      omega
  simp only [read?]
  rw [hnone]
  rfl

/-! ## Either form -/

/-- The token says the transition, in one of the two forms. -/
def WrittenAs (t : Transition) (token : String) : Prop :=
  (token = t.delimited ∧ IsDelimitable t.source ∧ IsDelimitable t.target) ∨
    (token.toList = t.source.toList ++ t.symbol :: t.target.toList ∧
      t.source.length = 1 ∧ t.target.length = 1)

theorem read?_eq_some_iff {token : String} {t : Transition} :
    read? token = some t ↔ t.WrittenAs token := by
  simp only [WrittenAs]
  rw [← delimited?_eq_some_iff, ← compact?_eq_some_iff]
  constructor
  · intro h
    simp only [read?] at h
    cases hdelimited : delimited? token with
    | none =>
      rw [hdelimited] at h
      exact .inr h
    | some t' =>
      rw [hdelimited] at h
      exact .inl h
  · rintro (h | h)
    · simp only [read?]
      rw [h]
      rfl
    · have hlength := isSome_compact?_iff.mp (Option.isSome_of_eq_some h)
      rw [read?_of_length_eq_three hlength, h]

/-- The token says some transition. -/
def IsWritten (token : String) : Prop := ∃ t : Transition, t.WrittenAs token

theorem isSome_read?_iff {token : String} : (read? token).isSome = true ↔ IsWritten token := by
  rw [Option.isSome_iff_exists]
  exact exists_congr fun _ => read?_eq_some_iff

instance (token : String) : Decidable (IsWritten token) := decidable_of_iff _ isSome_read?_iff

theorem decide_isWritten (token : String) : decide (IsWritten token) = (read? token).isSome := by
  rw [Bool.eq_iff_iff, decide_eq_true_iff, isSome_read?_iff]

end Transition

/-- The transitions are read from those words that can be read, in their order. -/
theorem Description.forall₂_readTransitions (read? : String → Option Transition)
    (words : List Token) :
    List.Forall₂ (fun word t => read? word.value = some t.value ∧ t.span = word.span)
      (words.filter fun word => (read? word.value).isSome) (readTransitions read? words) := by
  simp only [readTransitions]
  induction words with
  | nil => exact .nil
  | cons word words ih =>
    rw [List.filter_cons, List.filterMap_cons]
    cases hread : read? word.value with
    | none => exact ih
    | some t => exact .cons ⟨hread, rfl⟩ ih

end Acceptor
