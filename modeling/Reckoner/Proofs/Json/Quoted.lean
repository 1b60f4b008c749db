import Reckoner.Json.Printer
import Reckoner.Json.Token

/-!
# Strings between quotes

The reader of strings gives back the string that was written, and the text that comes
after its closing quote.
-/

namespace Reckoner
namespace Json
namespace Token

/-!
# One character
-/

def Piece.Spells (piece : Piece) (c : Char) : Prop :=
  ∀ more, join none (piece :: more) = (join none more).map (c :: ·)

theorem spells_char (c : Char) : (Piece.char c).Spells c := by
  intro more
  rw [join]

theorem spells_code {c : Char} (h : c.toNat < 0x20) : (Piece.code c.toNat).Spells c := by
  have hlow : ¬ 0xdc00 ≤ c.toNat := by omega
  have hhigh : ¬ 0xd800 ≤ c.toNat := by omega
  intro more
  rw [join.eq_def]
  simp only [hlow, hhigh, decide_false, Bool.false_and, Bool.false_eq_true, if_false,
    Char.ofNat_toNat]

theorem hexRunValue?_control : ∀ n < 32,
    Decimal.hexRunValue? ['0', '0', Nat.digitChar (n / 16), Nat.digitChar (n % 16)] =
      some n := by
  decide

theorem pieces_plain {c : Char} (rest : List Char) (hquote : c ≠ '"') (hbackslash : c ≠ '\\')
    (hplain : ¬ c.toNat < 0x20) : pieces (c :: rest) = (pieces rest).push (.char c) := by
  rw [pieces, if_neg hplain]
  · exact hquote
  · intro heq
    exact absurd heq hbackslash
  · intro _ _ _ _ _ heq
    exact absurd heq hbackslash
  · intro _ heq
    exact absurd heq hbackslash
  · intro _ _ heq
    exact absurd heq hbackslash

theorem pieces_escapeChar (c : Char) (rest : List Char) :
    ∃ piece, pieces (escapeChar c ++ rest) = (pieces rest).push piece ∧ piece.Spells c := by
  unfold escapeChar
  split
  case h_8 hquote hbackslash _ _ _ _ _ =>
    split
    · rename_i hcontrol
      refine ⟨.code c.toNat, ?_, spells_code hcontrol⟩
      show pieces ('\\' :: 'u' :: '0' :: '0' :: Nat.digitChar (c.toNat / 16) ::
        Nat.digitChar (c.toNat % 16) :: rest) = (pieces rest).push (.code c.toNat)
      rw [pieces, hexRunValue?_control c.toNat hcontrol]
    · rename_i hplain
      exact ⟨.char c, pieces_plain rest hquote hbackslash hplain, spells_char c⟩
  all_goals exact ⟨.char _, rfl, spells_char _⟩

/-!
# Strings
-/

theorem pieces_escaped (chars rest : List Char) :
    ∃ spelled, pieces (chars.flatMap escapeChar ++ '"' :: rest) =
        { pieces := spelled, fault := none, rest := rest } ∧
      join none spelled = .ok chars := by
  induction chars with
  | nil => exact ⟨[], rfl, rfl⟩
  | cons c more ih =>
      obtain ⟨spelled, hpieces, hjoin⟩ := ih
      obtain ⟨piece, hpiece, hspells⟩ :=
        pieces_escapeChar c (more.flatMap escapeChar ++ '"' :: rest)
      refine ⟨piece :: spelled, ?_, ?_⟩
      · rw [List.flatMap_cons, List.append_assoc, hpiece, hpieces]
        rfl
      · rw [hspells, hjoin]
        rfl

/-- What is written between quotes is read back. -/
theorem string_escaped (text : String) (rest : List Char) :
    string (text.toList.flatMap escapeChar ++ '"' :: rest) = (.str (.ok text) none, rest) := by
  obtain ⟨spelled, hpieces, hjoin⟩ := pieces_escaped text.toList rest
  unfold string
  simp only [hpieces, hjoin]
  show (Token.str (.ok (String.ofList text.toList)) none, rest) = (.str (.ok text) none, rest)
  rw [String.ofList_toList]

end Token

theorem quotedThen_injective {a b : String} {rest rest' : List Char}
    (h : quotedThen a rest = quotedThen b rest') : a = b ∧ rest = rest' := by
  have htail : a.toList.flatMap escapeChar ++ '"' :: rest =
      b.toList.flatMap escapeChar ++ '"' :: rest' := List.tail_eq_of_cons_eq h
  have hread := Token.string_escaped a rest
  rw [htail, Token.string_escaped b rest'] at hread
  cases hread
  exact ⟨rfl, rfl⟩

end Json
end Reckoner
