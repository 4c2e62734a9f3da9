import Acceptor.Proofs.Description.Transition
import Acceptor.Proofs.Text.Places

/-!
# Transition tokens are read in one way only

What a transition is written as in the delimited form is read back as this transition, or not at all
if one of its names has a comma; there is no other transition that it could be taken for.  The
reason is that the commas of a token that can be read lie between the ends of its two names, and
those of a token that was written as a transition reach from the end of one name to the beginning of
the other.

A token in the compact form is cut at the places of its second and third character, whatever their
widths are, and no token has both forms.

* `eq_of_delimited_eq`        no transition is taken for another one
* `delimited?_delimited`      what is written in the delimited form
* `slices_of_toList_eq`       the parts of a token in the compact form
* `read?_eq_compact?_or`      the order in which the forms are tried
* `tokens_decode_uniquely`    all of it together
-/

namespace Acceptor

namespace Transition

variable {token : String} {t u : Transition}

/-! ## The delimited form -/

/-- What can be read as a transition was not written as another one. -/
theorem eq_of_delimited_eq (h : t.delimited = u.delimited) (hsource : IsDelimitable u.source)
    (htarget : IsDelimitable u.target) : t = u := by
  have hchars : t.source.toList ++ ',' :: t.symbol :: ',' :: t.target.toList =
      u.source.toList ++ ',' :: u.symbol :: ',' :: u.target.toList := by
    rw [← toList_delimited, ← toList_delimited, h]
  have hreverse : t.target.toList.reverse ++ ',' :: t.symbol :: ',' :: t.source.toList.reverse =
      u.target.toList.reverse ++ ',' :: u.symbol :: ',' :: u.source.toList.reverse := by
    simpa using congrArg List.reverse hchars
  -- neither name of `u` is longer than that of `t`, and together they are as long
  have hfront : u.source.toList.length ≤ t.source.toList.length :=
    Text.length_le_of_append_cons_eq hchars hsource.comma_not_mem
  have hback : u.target.toList.reverse.length ≤ t.target.toList.reverse.length :=
    Text.length_le_of_append_cons_eq hreverse (by simpa using htarget.comma_not_mem)
  have hlength := congrArg List.length hchars
  simp only [List.length_append, List.length_cons, List.length_reverse] at hlength hback
  have hsame : t.source.toList.length = u.source.toList.length := by omega
  obtain ⟨hsources, hrest⟩ := List.append_inj hchars hsame
  injection hrest with _ hrest
  injection hrest with hsymbols hrest
  injection hrest with _ htargets
  cases t
  cases u
  exact (Transition.mk.injEq ..).mpr
    ⟨String.toList_inj.mp hsources, hsymbols, String.toList_inj.mp htargets⟩

/-- A transition that is written in the delimited form is read back, unless one of its names has a
    comma. -/
theorem delimited?_delimited (hsource : t.source ≠ "") (htarget : t.target ≠ "") :
    delimited? t.delimited =
      if ',' ∈ t.source.toList ∨ ',' ∈ t.target.toList then none else some t := by
  split
  · next hcomma =>
    cases hread : delimited? t.delimited with
    | none => rfl
    | some u =>
      -- it could only be read as the transition itself, whose names would have no comma
      obtain ⟨htoken, hu, hu'⟩ := delimited?_eq_some_iff.mp hread
      obtain rfl := eq_of_delimited_eq htoken hu hu'
      rcases hcomma with hcomma | hcomma
      · exact absurd hcomma hu.comma_not_mem
      · exact absurd hcomma hu'.comma_not_mem
  · next hcomma =>
    rw [not_or] at hcomma
    exact delimited?_eq_some_iff.mpr ⟨rfl, ⟨hsource, hcomma.1⟩, ⟨htarget, hcomma.2⟩⟩

example : delimited? "q0,,,q1" = some ⟨"q0", ',', "q1"⟩ := by decide
example : delimited? ",,,,," = none := by decide

/-- With names that are not empty, a token in the delimited form is too long for the compact one. -/
theorem compact?_delimited (hsource : t.source ≠ "") (htarget : t.target ≠ "") :
    compact? t.delimited = none := by
  have hs := List.length_pos_iff.mpr (mt String.toList_eq_nil_iff.mp hsource)
  have ht := List.length_pos_iff.mpr (mt String.toList_eq_nil_iff.mp htarget)
  have hlength : t.delimited.length ≠ 3 := by
    rw [← String.length_toList, toList_delimited]
    simp only [List.length_append, List.length_cons]
    omega
  exact Option.not_isSome_iff_eq_none.mp (mt isSome_compact?_iff.mp hlength)

/-! ## The compact form -/

/-- The parts of the transition stand in the token one behind the other, and cutting the token at
    the places of its second and third character gives them. -/
structure Slices (t : Transition) (token : String) : Prop where
  token_eq : token = t.source ++ String.singleton t.symbol ++ t.target
  slice?_source : Text.slice? token ⟨0, t.source.utf8ByteSize⟩ = some t.source
  slice?_symbol :
    Text.slice? token ⟨t.source.utf8ByteSize, t.source.utf8ByteSize + t.symbol.utf8Size⟩ =
      some (String.singleton t.symbol)
  slice?_target :
    Text.slice? token ⟨t.source.utf8ByteSize + t.symbol.utf8Size, token.utf8ByteSize⟩ =
      some t.target

theorem slices_of_toList_eq
    (h : token.toList = t.source.toList ++ t.symbol :: t.target.toList) : t.Slices token where
  token_eq := by
    apply String.toList_inj.mp
    simpa using h
  slice?_source := by
    apply Text.slice?_eq_some_iff.mpr
    exact ⟨[], t.symbol :: t.target.toList, by simpa using h, rfl, by
      rw [Text.byteLength_toList, Text.byteLength_nil, Nat.zero_add]⟩
  slice?_symbol := by
    apply Text.slice?_eq_some_iff.mpr
    refine ⟨t.source.toList, t.target.toList, by simpa using h, ?_, ?_⟩
    · rw [Text.byteLength_toList]
    · rw [Text.byteLength_toList, String.toList_singleton, Text.byteLength_cons,
        Text.byteLength_nil, Nat.add_zero]
  slice?_target := by
    have hfront : t.source.utf8ByteSize + t.symbol.utf8Size =
        Text.byteLength (t.source.toList ++ [t.symbol]) := by
      rw [Text.byteLength_append, Text.byteLength_toList, Text.byteLength_cons,
        Text.byteLength_nil, Nat.add_zero]
    apply Text.slice?_eq_some_iff.mpr
    refine ⟨t.source.toList ++ [t.symbol], [], by simpa using h, hfront, ?_⟩
    show token.utf8ByteSize = _
    rw [← Text.byteLength_append, ← Text.byteLength_toList, h]
    simp

/-! ## Both forms -/

/-- No token has both forms. -/
theorem delimited?_eq_none_or (token : String) :
    delimited? token = none ∨ compact? token = none := by
  cases hdelimited : delimited? token with
  | none => exact .inl rfl
  | some t =>
    -- one form has five characters or more, the other one three
    have hlong := five_le_length_of_delimited? hdelimited
    have hlength : token.length ≠ 3 := by omega
    exact .inr (Option.not_isSome_iff_eq_none.mp (mt isSome_compact?_iff.mp hlength))

/-- The forms may as well be tried in the other order. -/
theorem read?_eq_compact?_or : read? = fun token => compact? token <|> delimited? token := by
  funext token
  simp only [read?]
  rcases delimited?_eq_none_or token with h | h
  · rw [h]
    simp
  · rw [h]
    simp

/-! ## Main result -/

/-- Tokens are decoded uniquely.  A transition with names that are not empty, written in the
    delimited form, is read as itself if no name has a comma and else not at all, and never in the
    compact form; and whatever is read in the delimited form was written so.  The compact form is
    that of the tokens of three characters, which are the parts of the transition and can be cut out
    where they stand.  No token has both forms, so it is the same which one is tried first. -/
theorem tokens_decode_uniquely (token : String) (t : Transition) :
    (t.source ≠ "" → t.target ≠ "" →
      delimited? (t.source ++ "," ++ String.singleton t.symbol ++ "," ++ t.target) =
          (if ',' ∈ t.source.toList ∨ ',' ∈ t.target.toList then none else some t) ∧
        compact? (t.source ++ "," ++ String.singleton t.symbol ++ "," ++ t.target) = none) ∧
    (delimited? token = some t →
      token = t.source ++ "," ++ String.singleton t.symbol ++ "," ++ t.target ∧
        IsDelimitable t.source ∧ IsDelimitable t.target) ∧
    ((compact? token).isSome = true ↔ token.length = 3) ∧
    (compact? token = some t →
      t.source.length = 1 ∧ t.target.length = 1 ∧ t.Slices token) ∧
    (delimited? token = none ∨ compact? token = none) ∧
    read? = fun token => compact? token <|> delimited? token := by
  refine ⟨fun hsource htarget => ⟨delimited?_delimited hsource htarget,
    compact?_delimited hsource htarget⟩, fun h => ?_, isSome_compact?_iff, fun h => ?_,
    delimited?_eq_none_or token, read?_eq_compact?_or⟩
  · exact delimited?_eq_some_iff.mp h
  · obtain ⟨htoken, hsource, htarget⟩ := compact?_eq_some_iff.mp h
    exact ⟨hsource, htarget, slices_of_toList_eq htoken⟩

end Transition

end Acceptor
