/-!
# Bytes of texts

Texts are stored and sent in UTF-8. A fingerprint boils a sequence of bytes down to 64 bits.
-/

namespace Tenure

/-- A sequence of bytes. -/
abbrev Bytes := List UInt8

/-- The UTF-8 bytes of a text. -/
def utf8 (text : String) : Bytes := text.toUTF8.toList

/-- A 64-bit fingerprint: byte by byte, an exclusive or and then a multiplication. Different bytes
may have one fingerprint. -/
def fingerprint (bytes : Bytes) : UInt64 :=
  bytes.foldl (fun h b => (h ^^^ b.toUInt64) * 1099511628211) 14695981039346656037

end Tenure
