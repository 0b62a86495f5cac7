import MappingGraph.Digest.Sha256
import MappingGraph.Document.Codec

/-!
# Checksums

What is made from a compiled mapping may be kept as long as the document stays the same.  The
checksum of a document, the SHA-256 hash of its written form, tells whether it did.
-/

set_option autoImplicit false

namespace MappingGraph

/-- A hash in lower-case hexadecimal digits. -/
structure Checksum where
  text : String
deriving DecidableEq, Repr, Inhabited

namespace Checksum

def ofBytes (bytes : List UInt8) : Checksum := ⟨Sha256.hexDigest bytes⟩

def ofString (s : String) : Checksum := ofBytes s.toUTF8.data.toList

/-- The checksum of a value's written form. -/
def ofJson (v : Json) : Checksum := ofString v.compact

/-- The checksum of a document's written form. -/
def ofDocument (d : Document) : Checksum := ofString d.text

/-- Whether the document still has the checksum. -/
def isOf (c : Checksum) (d : Document) : Bool := c = ofDocument d

def toJson (c : Checksum) : Json := .string c.text

def decode : Decoder Checksum := fun standing d => (Decoder.string standing d).map Checksum.mk

end Checksum

end MappingGraph
