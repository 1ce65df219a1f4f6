import TwoWayPeg.SortedMap
import TwoWayPeg.Text.Hex

/-!
# The order of texts

Texts that serve as keys are ordered by their bytes, which is also the order of their characters.
-/

namespace TwoWayPeg

namespace Text

/-- A text is determined by its bytes. -/
theorem eq_of_utf8_eq {a b : String} (h : Hex.utf8 a = Hex.utf8 b) : a = b := by
  have hbytes : ∀ s : String, s.toByteArray.data.toList = Hex.utf8 s := by
    intro s
    have := String.utf8Encode_toList (b := s)
    rw [← this]
    simp [Hex.utf8, List.utf8Encode]
  have : a.toByteArray = b.toByteArray := by
    have := (hbytes a).trans (h.trans (hbytes b).symm)
    cases ha : a.toByteArray; cases hb : b.toByteArray
    simp_all
  exact String.toByteArray_inj.mp this

end Text

/-- Texts are ordered by their UTF-8 bytes. -/
instance : KeyOrder String := .ofInjective Hex.utf8 fun _ _ => Text.eq_of_utf8_eq

end TwoWayPeg
