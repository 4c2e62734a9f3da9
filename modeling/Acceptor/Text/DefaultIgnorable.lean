import Acceptor.Text.Blank

/-! # Characters that are shown as nothing

A character with the Unicode 17 property `Default_Ignorable_Code_Point` leaves no trace in a text
unless it is given special support: joiners, variation selectors, tags, and the fillers of Hangul,
which count as letters and so are not unprintable by their category. -/

namespace Acceptor.Text

/-- The code points with the property `Default_Ignorable_Code_Point`. -/
def defaultIgnorableRanges : List (Nat × Nat) :=
  [(0xAD, 0xAD), (0x34F, 0x34F), (0x61C, 0x61C), (0x115F, 0x1160), (0x17B4, 0x17B5),
   (0x180B, 0x180F), (0x200B, 0x200F), (0x202A, 0x202E), (0x2060, 0x206F), (0x3164, 0x3164),
   (0xFE00, 0xFE0F), (0xFEFF, 0xFEFF), (0xFFA0, 0xFFA0), (0xFFF0, 0xFFF8), (0x1BCA0, 0x1BCA3),
   (0x1D173, 0x1D17A), (0xE0000, 0xE0FFF)]

example : ascending defaultIgnorableRanges = true := by decide

/-- Whether `c` is shown as nothing. -/
def isDefaultIgnorable (c : Char) : Bool := inRanges defaultIgnorableRanges c.toNat

end Acceptor.Text
