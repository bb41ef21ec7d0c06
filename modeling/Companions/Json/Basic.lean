/-!
JSON values. A string is kept as it stands between its quotes, because a reader that skips a
value checks less of it than one that decodes it; a number is kept digit by digit.
-/
namespace Companions

abbrev Bytes := List UInt8

/-- The bytes of a text in UTF-8. -/
def utf8 (s : String) : Bytes := s.toByteArray.data.toList

/-- The text that the bytes encode, if they are UTF-8. -/
def ofUtf8? (bs : Bytes) : Option String := String.fromUTF8? ⟨bs.toArray⟩

theorem ofUtf8?_utf8 (s : String) : ofUtf8? (utf8 s) = some s := by
  have h : (⟨(utf8 s).toArray⟩ : ByteArray) = s.toByteArray := by simp [utf8]
  simp only [ofUtf8?, h, String.fromUTF8?, s.isValidUTF8]
  rfl

namespace Json

/-- A number as it is written: digits are kept as ASCII bytes, and the exponent with whether it
is negative. -/
structure Number where
  negative : Bool := false
  whole : Bytes
  fraction : Bytes := []
  exponent : Option (Bool × Bytes) := none
  deriving DecidableEq, Repr, Inhabited

end Json

inductive Json where
  | null
  | bool (value : Bool)
  | num (number : Json.Number)
  | str (raw : Bytes)
  | arr (items : List Json)
  | obj (members : List (Bytes × Json))
  deriving Repr, Inhabited

end Companions
