import Reckoner.Digest.Sha256
import Reckoner.Json.Printer

/-!
# Digests

The identity of a document is the hash of its canonical text, so it does not
depend on the order in which entries are listed.
-/

namespace Reckoner

structure Digest where
  hex : String
  deriving DecidableEq, Inhabited

namespace Digest

def byteChars (byte : UInt8) : List Char :=
  [Nat.digitChar (byte.toNat / 16), Nat.digitChar (byte.toNat % 16)]

def ofBytes (bytes : List UInt8) : Digest where
  hex := String.ofList ((Sha256.hash bytes).flatMap byteChars)

def ofJson (value : Json) : Digest :=
  ofBytes value.canonicalText.toUTF8.toList

end Digest
end Reckoner
