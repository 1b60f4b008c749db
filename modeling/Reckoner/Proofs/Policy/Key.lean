import Reckoner.Policy.Key
import Reckoner.Proofs.Json.Text

/-!
# Keys of documents

A digest shows its hash in full, and the canonical text of a document is the text of
no other one.  So documents share a key only if SHA-256 gives one hash to different
texts.
-/

namespace Reckoner

namespace Digest

/-!
# Hexadecimal digits
-/

theorem digitChar_injective : ∀ m < 16, ∀ n < 16, Nat.digitChar m = Nat.digitChar n -> m = n := by
  decide

theorem byteChars_injective {a b : UInt8} (h : byteChars a = byteChars b) : a = b := by
  have ha : a.toNat < 256 := a.toNat_lt
  have hb : b.toNat < 256 := b.toNat_lt
  injection h with hhigh htail
  injection htail with hlow
  have hhigh := digitChar_injective _ (by omega) _ (by omega) hhigh
  have hlow := digitChar_injective _ (by omega) _ (by omega) hlow
  apply UInt8.toNat_inj.mp
  omega

theorem flatMap_byteChars_injective : ∀ {xs ys : List UInt8},
    xs.flatMap byteChars = ys.flatMap byteChars -> xs = ys
  | [], [], _ => rfl
  | [], _ :: _, h => by cases h
  | _ :: _, [], h => by cases h
  | x :: xs, y :: ys, h => by
      rw [List.flatMap_cons, List.flatMap_cons] at h
      rcases List.append_inj h rfl with ⟨hhead, htail⟩
      rw [byteChars_injective hhead, flatMap_byteChars_injective htail]

theorem hash_eq_of_ofBytes {a b : List UInt8} (h : ofBytes a = ofBytes b) :
    Sha256.hash a = Sha256.hash b := by
  injection h with hhex
  exact flatMap_byteChars_injective (String.ofList_injective hhex)

end Digest

namespace Json
namespace Document

def bytes (document : Document) : List UInt8 :=
  document.value.canonicalText.toUTF8.toList

/-- Whether SHA-256 gives different hashes to the different texts among documents. -/
def Separated (documents : List Document) : Prop :=
  ∀ a ∈ documents, ∀ b ∈ documents,
    a.value.canonicalText ≠ b.value.canonicalText -> Sha256.hash a.bytes ≠ Sha256.hash b.bytes

instance (documents : List Document) : Decidable (Separated documents) :=
  inferInstanceAs (Decidable (∀ a ∈ documents, ∀ b ∈ documents, _ -> _))

theorem value_eq_of_digest {documents : List Document} (hseparated : Separated documents)
    {a b : Document} (ha : a ∈ documents) (hb : b ∈ documents)
    (h : Digest.ofJson a.value = Digest.ofJson b.value) : a.value = b.value := by
  apply canonicalText_injective
  by_cases htext : a.value.canonicalText = b.value.canonicalText
  · exact htext
  · exact absurd (Digest.hash_eq_of_ofBytes h) (hseparated a ha b hb htext)

end Document
end Json
end Reckoner
