/-!
# Texts as bytes

The UTF-8 form of a text, and the text of a byte sequence that is the UTF-8
form of one.  A byte sequence stands for at most one text.
-/

namespace BatchRelay

namespace Utf8

/-- The UTF-8 bytes of a text. -/
def encode (text : String) : List UInt8 :=
  text.toByteArray.data.toList

/-- The text with these UTF-8 bytes, if they are well formed. -/
def decode? (bytes : List UInt8) : Option String :=
  String.fromUTF8? ⟨bytes.toArray⟩

theorem decode?_eq_some_iff {bytes : List UInt8} {text : String} :
    decode? bytes = some text ↔ bytes = encode text := by
  constructor
  · intro decoded
    simp only [decode?, String.fromUTF8?] at decoded
    split at decoded
    · cases decoded
      simp [encode, String.fromUTF8]
    · cases decoded
  · intro same
    subst same
    have valid : (⟨(encode text).toArray⟩ : ByteArray) = text.toByteArray := by
      simp [encode]
    simp only [decode?, String.fromUTF8?, valid, dif_pos text.isValidUTF8]
    rfl

end Utf8

end BatchRelay
