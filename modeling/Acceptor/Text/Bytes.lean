/-! # Byte offsets

Positions in a source text are byte offsets into its UTF-8 form, while texts are taken apart as
lists of characters.  `byteLength` measures a list of characters in bytes and `splitAtByte?` cuts
one at a byte offset, refusing offsets past the end or inside a character.

* `byteLength_append`          lengths add up
* `byteLength_toList`          the length is that of the UTF-8 form
* `splitAtByte?_eq_some_iff`   a cut loses nothing and puts that many bytes in front -/

namespace Acceptor.Text

/-- The number of bytes of the UTF-8 form of `cs`. -/
def byteLength (cs : List Char) : Nat := cs.foldl (fun n c => n + c.utf8Size) 0

/-- Summing from `n` adds `n` to the length. -/
theorem foldl_utf8Size (n : Nat) (cs : List Char) :
    cs.foldl (fun n c => n + c.utf8Size) n = n + byteLength cs := by
  unfold byteLength
  induction cs generalizing n with
  | nil => rfl
  | cons c cs ih => rw [List.foldl_cons, List.foldl_cons, ih, ih (0 + c.utf8Size)]; omega

@[simp] theorem byteLength_nil : byteLength [] = 0 := rfl

@[simp] theorem byteLength_cons (c : Char) (cs : List Char) :
    byteLength (c :: cs) = c.utf8Size + byteLength cs := by
  rw [byteLength, List.foldl_cons, foldl_utf8Size, Nat.zero_add]

@[simp] theorem byteLength_append (cs ds : List Char) :
    byteLength (cs ++ ds) = byteLength cs + byteLength ds := by
  induction cs with
  | nil => simp
  | cons c cs ih => simp [ih, Nat.add_assoc]

@[simp] theorem byteLength_eq_zero_iff {cs : List Char} : byteLength cs = 0 ↔ cs = [] := by
  cases cs with
  | nil => simp
  | cons c cs =>
    have := c.utf8Size_pos
    simp only [byteLength_cons, reduceCtorEq, iff_false]
    omega

/-- The length of a list of characters is the size of the text it makes. -/
theorem utf8ByteSize_ofList (cs : List Char) :
    (String.ofList cs).utf8ByteSize = byteLength cs := by
  induction cs with
  | nil => rfl
  | cons c cs ih =>
    rw [← List.singleton_append, String.ofList_append, String.utf8ByteSize_append, ih,
      ← String.singleton_eq_ofList, String.utf8ByteSize_singleton, List.singleton_append,
      byteLength_cons]

/-- The length of the characters of a text is the size of the text. -/
theorem byteLength_toList (s : String) : byteLength s.toList = s.utf8ByteSize := by
  rw [← utf8ByteSize_ofList, String.ofList_toList]

/-- Moves characters from the front of the second list onto the reversed first one until `n` bytes
have been moved. -/
def splitAtByteFrom (taken : List Char) : Nat → List Char → Option (List Char × List Char)
  | 0, cs => some (taken.reverse, cs)
  | _ + 1, [] => none
  | n + 1, c :: cs =>
    if c.utf8Size ≤ n + 1 then splitAtByteFrom (c :: taken) (n + 1 - c.utf8Size) cs else none

/-- The characters before and after byte offset `n`, or `none` if `n` lies past the end or inside a
character. -/
def splitAtByte? (n : Nat) (cs : List Char) : Option (List Char × List Char) :=
  splitAtByteFrom [] n cs

/-- Only moving characters whose lengths add up to `n` succeeds, and it always does. -/
theorem splitAtByteFrom_eq_some_iff {taken : List Char} {n : Nat} {cs as bs : List Char} :
    splitAtByteFrom taken n cs = some (as, bs) ↔
      ∃ moved, as = taken.reverse ++ moved ∧ cs = moved ++ bs ∧ byteLength moved = n := by
  fun_induction splitAtByteFrom taken n cs with
  | case1 taken cs =>
    constructor
    · intro h
      obtain ⟨rfl, rfl⟩ := Prod.mk.inj (Option.some.inj h)
      exact ⟨[], by simp⟩
    · rintro ⟨moved, rfl, rfl, h⟩
      cases moved with
      | nil => simp
      | cons c moved =>
        have := c.utf8Size_pos
        rw [byteLength_cons] at h
        omega
  | case2 taken n =>
    constructor
    · simp
    · rintro ⟨moved, rfl, h, hn⟩
      obtain ⟨rfl, rfl⟩ := List.append_eq_nil_iff.1 h.symm
      simp at hn
  | case3 taken n c cs hc ih =>
    rw [ih]
    clear ih
    constructor
    · rintro ⟨moved, rfl, rfl, h⟩
      refine ⟨c :: moved, by simp, rfl, ?_⟩
      rw [byteLength_cons, h]
      omega
    · rintro ⟨moved, rfl, h, hn⟩
      cases moved with
      | nil => simp at hn
      | cons d moved =>
        obtain ⟨rfl, rfl⟩ := List.cons.inj h
        rw [byteLength_cons] at hn
        exact ⟨moved, by simp, rfl, by omega⟩
  | case4 taken n c cs hc =>
    constructor
    · simp
    · rintro ⟨moved, rfl, h, hn⟩
      cases moved with
      | nil => simp at hn
      | cons d moved =>
        obtain ⟨rfl, rfl⟩ := List.cons.inj h
        rw [byteLength_cons] at hn
        omega

/-- A cut loses nothing and puts `n` bytes in front; wherever that is possible there is a cut. -/
theorem splitAtByte?_eq_some_iff {n : Nat} {cs as bs : List Char} :
    splitAtByte? n cs = some (as, bs) ↔ cs = as ++ bs ∧ byteLength as = n := by
  simp [splitAtByte?, splitAtByteFrom_eq_some_iff]

example : splitAtByte? 2 ['é', 'a'] = some (['é'], ['a']) := by decide
example : splitAtByte? 1 ['é', 'a'] = none := by decide
example : splitAtByte? 4 ['é', 'a'] = none := by decide

end Acceptor.Text
