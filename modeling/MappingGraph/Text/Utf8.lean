/-!
# Bytes as text

A file that is read as text must be valid UTF-8.
-/

set_option autoImplicit false

namespace MappingGraph.Text

/-- The text that the bytes encode, if they do. -/
def ofBytes? (bytes : List UInt8) : Option String := String.fromUTF8? ⟨bytes.toArray⟩

/-- The bytes that encode a text. -/
def toBytes (s : String) : List UInt8 := s.toUTF8.data.toList

end MappingGraph.Text
