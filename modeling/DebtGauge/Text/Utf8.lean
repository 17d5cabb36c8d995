import DebtGauge.Tally

/-!
# Texts as bytes

The content of a file is a list of bytes; it is a text if the bytes are well-formed UTF-8.
-/

namespace DebtGauge.Text

/-- The UTF-8 bytes of a text. -/
def toBytes (text : String) : ByteArray :=
  text.toUTF8

/-- The text that the bytes encode, if they are well-formed UTF-8. -/
def ofBytes? (bytes : ByteArray) : Option String :=
  String.fromUTF8? bytes

/-- The number of bytes of a text. -/
def byteCount (cs : List Char) : Nat :=
  tally Char.utf8Size cs

end DebtGauge.Text
