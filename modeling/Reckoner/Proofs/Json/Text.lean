import Reckoner.Proofs.Decimal.Notation
import Reckoner.Proofs.Json.Document
import Reckoner.Proofs.Json.Quoted

/-!
# The text of a document names it

Different documents have different texts.  The first character of a text tells the
kind of its value, and a value inside an array or an object ends at a comma or at a
closing bracket, which no number contains.
-/

namespace Reckoner
namespace Json

open Decimal

/-!
# Numbers
-/

theorem integerChars_injective {a b : Int} (h : integerChars a = integerChars b) : a = b := by
  unfold integerChars at h
  split at h
  · split at h
    · have hsize := toDigits_injective (List.tail_eq_of_cons_eq h)
      omega
    · have hminus : '-' ∈ Nat.toDigits 10 b.natAbs := by
        rw [← h]
        exact List.mem_cons_self
      cases isDigit_of_mem_toDigits hminus
  · split at h
    · have hminus : '-' ∈ Nat.toDigits 10 a.natAbs := by
        rw [h]
        exact List.mem_cons_self
      cases isDigit_of_mem_toDigits hminus
    · have hsize := toDigits_injective h
      omega

theorem isDigit_or_minus_of_mem_integerChars {value : Int} {c : Char}
    (h : c ∈ integerChars value) : isDigit c = true ∨ c = '-' := by
  unfold integerChars at h
  split at h
  · rcases List.mem_cons.mp h with hminus | hdigit
    · exact Or.inr hminus
    · exact Or.inl (isDigit_of_mem_toDigits hdigit)
  · exact Or.inl (isDigit_of_mem_toDigits h)

theorem not_isMark_of_mem_integerChars {value : Int} {c : Char} (h : c ∈ integerChars value) :
    isMark c = false := by
  rcases isDigit_or_minus_of_mem_integerChars h with hdigit | rfl
  · unfold isMark
    rw [Bool.or_eq_false_iff]
    constructor
    · apply decide_eq_false
      rintro rfl
      cases hdigit
    · apply decide_eq_false
      rintro rfl
      cases hdigit
  · rfl

theorem numberChars_double {x : Float} (hx : x.isFinite = true) :
    numberChars (.double x) = (plain.render x).toList := by
  show (if x.isFinite then (plain.render x).toList else "null".toList) = _
  rw [if_pos hx]

theorem isNumeralChar_of_mem_numberChars {n : Number}
    (hn : (Json.num n).isWellFormed = true) :
    ∀ c ∈ numberChars n, isNumeralChar c = true := by
  intro c hc
  cases n with
  | int value =>
      rcases isDigit_or_minus_of_mem_integerChars hc with hdigit | rfl
      · exact isNumeralChar_of_isDigit hdigit
      · rfl
  | double x =>
      rw [numberChars_double hn] at hc
      exact Style.isNumeralChar_of_mem_render hn c hc

theorem numberChars_ne_nil {n : Number} (hn : (Json.num n).isWellFormed = true) :
    numberChars n ≠ [] := by
  intro hnil
  cases n with
  | int value =>
      change integerChars value = [] at hnil
      unfold integerChars at hnil
      split at hnil
      · cases hnil
      · exact Nat.toDigits_ne_nil hnil
  | double x =>
      rw [numberChars_double hn] at hnil
      obtain ⟨c, hc, _⟩ := plain.exists_mark_render hn
      rw [hnil] at hc
      cases hc

theorem numberChars_int_ne_double {value : Int} {x : Float} (hx : x.isFinite = true) :
    numberChars (.int value) ≠ numberChars (.double x) := by
  intro h
  obtain ⟨c, hc, hmark⟩ := plain.exists_mark_render hx
  rw [← numberChars_double hx, ← h] at hc
  rw [not_isMark_of_mem_integerChars hc] at hmark
  cases hmark

theorem numberChars_injective {a b : Number} (ha : (Json.num a).isWellFormed = true)
    (hb : (Json.num b).isWellFormed = true) (h : numberChars a = numberChars b) : a = b := by
  cases a with
  | int value =>
      cases b with
      | int value' => rw [integerChars_injective h]
      | double y => exact absurd h (numberChars_int_ne_double hb)
  | double x =>
      cases b with
      | int value' => exact absurd h.symm (numberChars_int_ne_double ha)
      | double y =>
          rw [numberChars_double ha, numberChars_double hb] at h
          rw [plain.render_injective ha hb (String.toList_injective h)]

def Ends (rest : List Char) : Prop :=
  rest.takeWhile isNumeralChar = []

theorem numberChars_append_injective {a b : Number} {rest rest' : List Char}
    (ha : (Json.num a).isWellFormed = true) (hb : (Json.num b).isWellFormed = true)
    (hrest : Ends rest) (hrest' : Ends rest')
    (h : numberChars a ++ rest = numberChars b ++ rest') : a = b ∧ rest = rest' := by
  have hchars := isNumeralChar_of_mem_numberChars ha
  have hchars' := isNumeralChar_of_mem_numberChars hb
  have htake := congrArg (List.takeWhile isNumeralChar) h
  have hdrop := congrArg (List.dropWhile isNumeralChar) h
  rw [takeWhile_run hchars hrest, takeWhile_run hchars' hrest'] at htake
  rw [dropWhile_run hchars hrest, dropWhile_run hchars' hrest'] at hdrop
  exact ⟨numberChars_injective ha hb htake, hdrop⟩

/-!
# Kinds
-/

inductive Kind where
  | null
  | bool (value : Bool)
  | num
  | str
  | arr
  | obj

def kind : Json -> Kind
  | .null => .null
  | .bool value => .bool value
  | .num _ => .num
  | .str _ => .str
  | .arr _ => .arr
  | .obj _ => .obj

def Kind.ofChar? (c : Char) : Option Kind :=
  match c with
  | 'n' => some .null
  | 't' => some (.bool true)
  | 'f' => some (.bool false)
  | '"' => some .str
  | '[' => some .arr
  | '\x7b' => some .obj
  | c => if isNumeralChar c then some .num else none

theorem kind_of_isNumeralChar {c : Char} (h : isNumeralChar c = true) :
    Kind.ofChar? c = some .num := by
  unfold Kind.ofChar?
  split
  case h_7 => rw [if_pos h]
  all_goals cases h

theorem kind_of_charsThen {a : Json} (ha : a.isWellFormed = true) (rest : List Char) :
    (a.charsThen rest).head?.bind Kind.ofChar? = some a.kind := by
  cases a with
  | null => rfl
  | bool value => cases value <;> rfl
  | num n =>
      show (numberChars n ++ rest).head?.bind Kind.ofChar? = some .num
      cases hchars : numberChars n with
      | nil => exact absurd hchars (numberChars_ne_nil ha)
      | cons c more =>
          apply kind_of_isNumeralChar
          apply isNumeralChar_of_mem_numberChars ha
          rw [hchars]
          exact List.mem_cons_self
  | str value => rfl
  | arr items => rfl
  | obj entries => rfl

theorem kind_eq {a b : Json} {rest rest' : List Char} (ha : a.isWellFormed = true)
    (hb : b.isWellFormed = true) (h : a.charsThen rest = b.charsThen rest') :
    a.kind = b.kind := by
  have hkind := kind_of_charsThen ha rest
  rw [h, kind_of_charsThen hb rest'] at hkind
  exact (Option.some.inj hkind).symm

/-!
# Values
-/

def nextItems (rest : List Char) : List Json -> List Char
  | [] => rest
  | item :: more => ',' :: itemsThen rest (item :: more)

def nextEntries (rest : List Char) : List (String × Json) -> List Char
  | [] => rest
  | entry :: more => ',' :: entriesThen rest (entry :: more)

theorem itemsThen_cons (rest : List Char) (item : Json) (more : List Json) :
    itemsThen rest (item :: more) = item.charsThen (nextItems rest more) := by
  cases more <;> rfl

theorem entriesThen_cons (rest : List Char) (name : String) (value : Json)
    (more : List (String × Json)) :
    entriesThen rest ((name, value) :: more) =
      quotedThen name (':' :: value.charsThen (nextEntries rest more)) := by
  cases more <;> rfl

theorem itemsThen_cons_ne {item : Json} (hitem : item.isWellFormed = true) {more : List Json}
    {rest rest' : List Char} : itemsThen rest (item :: more) ≠ ']' :: rest' := by
  intro h
  have hkind := kind_of_charsThen hitem (nextItems rest more)
  rw [← itemsThen_cons, h] at hkind
  cases hkind

/-!
What follows the first item decides the items after it, since a comma is no bracket.
-/

theorem itemsThen_of_nextItems {xs ys : List Json} {rest rest' : List Char}
    (h : nextItems (']' :: rest) xs = nextItems (']' :: rest') ys) :
    itemsThen (']' :: rest) xs = itemsThen (']' :: rest') ys := by
  cases xs with
  | nil =>
      cases ys with
      | nil => exact h
      | cons _ _ => cases h
  | cons _ _ =>
      cases ys with
      | nil => cases h
      | cons _ _ => exact List.tail_eq_of_cons_eq h

theorem entriesThen_of_nextEntries {xs ys : List (String × Json)} {rest rest' : List Char}
    (h : nextEntries ('\x7d' :: rest) xs = nextEntries ('\x7d' :: rest') ys) :
    entriesThen ('\x7d' :: rest) xs = entriesThen ('\x7d' :: rest') ys := by
  cases xs with
  | nil =>
      cases ys with
      | nil => exact h
      | cons _ _ => cases h
  | cons _ _ =>
      cases ys with
      | nil => cases h
      | cons _ _ => exact List.tail_eq_of_cons_eq h

mutual

theorem charsThen_injective : ∀ (a b : Json) {rest rest' : List Char},
    a.isWellFormed = true -> b.isWellFormed = true -> Ends rest -> Ends rest' ->
    a.charsThen rest = b.charsThen rest' -> a = b ∧ rest = rest'
  | .null, b, rest, rest', ha, hb, _, _, h => by
      have hkind := kind_eq ha hb h
      cases b with
      | null => exact ⟨rfl, List.append_cancel_left h⟩
      | _ => cases hkind
  | .bool value, b, rest, rest', ha, hb, _, _, h => by
      have hkind := kind_eq ha hb h
      cases b with
      | bool value' =>
          cases hkind
          cases value with
          | true => exact ⟨rfl, List.append_cancel_left h⟩
          | false => exact ⟨rfl, List.append_cancel_left h⟩
      | _ => cases hkind
  | .num n, b, rest, rest', ha, hb, hrest, hrest', h => by
      have hkind := kind_eq ha hb h
      cases b with
      | num n' =>
          rcases numberChars_append_injective ha hb hrest hrest' h with ⟨hsame, htail⟩
          exact ⟨by rw [hsame], htail⟩
      | _ => cases hkind
  | .str value, b, rest, rest', ha, hb, _, _, h => by
      have hkind := kind_eq ha hb h
      cases b with
      | str value' =>
          rcases quotedThen_injective h with ⟨hsame, htail⟩
          exact ⟨by rw [hsame], htail⟩
      | _ => cases hkind
  | .arr items, b, rest, rest', ha, hb, _, _, h => by
      have hkind := kind_eq ha hb h
      cases b with
      | arr items' =>
          rcases itemsThen_injective items items' ha hb (List.tail_eq_of_cons_eq h) with
            ⟨hsame, htail⟩
          exact ⟨by rw [hsame], htail⟩
      | _ => cases hkind
  | .obj entries, b, rest, rest', ha, hb, _, _, h => by
      have hkind := kind_eq ha hb h
      cases b with
      | obj entries' =>
          rcases entriesThen_injective entries entries' (Bool.and_eq_true_iff.mp ha).2
            (Bool.and_eq_true_iff.mp hb).2 (List.tail_eq_of_cons_eq h) with ⟨hsame, htail⟩
          exact ⟨by rw [hsame], htail⟩
      | _ => cases hkind

theorem itemsThen_injective : ∀ (xs ys : List Json) {rest rest' : List Char},
    wellFormedItems xs = true -> wellFormedItems ys = true ->
    itemsThen (']' :: rest) xs = itemsThen (']' :: rest') ys -> xs = ys ∧ rest = rest'
  | [], [], _, _, _, _, h => ⟨rfl, List.tail_eq_of_cons_eq h⟩
  | [], y :: ys, _, _, _, hys, h =>
      absurd h.symm (itemsThen_cons_ne (Bool.and_eq_true_iff.mp hys).1)
  | x :: xs, [], _, _, hxs, _, h =>
      absurd h (itemsThen_cons_ne (Bool.and_eq_true_iff.mp hxs).1)
  | x :: xs, y :: ys, rest, rest', hxs, hys, h => by
      rcases Bool.and_eq_true_iff.mp hxs with ⟨hx, hxs⟩
      rcases Bool.and_eq_true_iff.mp hys with ⟨hy, hys⟩
      have hends : Ends (nextItems (']' :: rest) xs) := by cases xs <;> rfl
      have hends' : Ends (nextItems (']' :: rest') ys) := by cases ys <;> rfl
      rw [itemsThen_cons, itemsThen_cons] at h
      rcases charsThen_injective x y hx hy hends hends' h with ⟨hhead, hnext⟩
      have hmore := itemsThen_injective xs ys hxs hys (itemsThen_of_nextItems hnext)
      exact ⟨by rw [hhead, hmore.1], hmore.2⟩

theorem entriesThen_injective : ∀ (xs ys : List (String × Json)) {rest rest' : List Char},
    wellFormedEntries xs = true -> wellFormedEntries ys = true ->
    entriesThen ('\x7d' :: rest) xs = entriesThen ('\x7d' :: rest') ys ->
    xs = ys ∧ rest = rest'
  | [], [], _, _, _, _, h => ⟨rfl, List.tail_eq_of_cons_eq h⟩
  | [], (name, value) :: ys, _, _, _, _, h => by
      rw [entriesThen_cons] at h
      cases h
  | (name, value) :: xs, [], _, _, _, _, h => by
      rw [entriesThen_cons] at h
      cases h
  | (name, value) :: xs, (name', value') :: ys, rest, rest', hxs, hys, h => by
      rcases Bool.and_eq_true_iff.mp hxs with ⟨hx, hxs⟩
      rcases Bool.and_eq_true_iff.mp hys with ⟨hy, hys⟩
      have hends : Ends (nextEntries ('\x7d' :: rest) xs) := by cases xs <;> rfl
      have hends' : Ends (nextEntries ('\x7d' :: rest') ys) := by cases ys <;> rfl
      rw [entriesThen_cons, entriesThen_cons] at h
      rcases quotedThen_injective h with ⟨hname, hvalue⟩
      rcases charsThen_injective value value' hx hy hends hends'
        (List.tail_eq_of_cons_eq hvalue) with ⟨hhead, hnext⟩
      have hmore := entriesThen_injective xs ys hxs hys (entriesThen_of_nextEntries hnext)
      exact ⟨by rw [hname, hhead, hmore.1], hmore.2⟩

end

theorem text_injective {a b : Json} (ha : a.isWellFormed = true) (hb : b.isWellFormed = true)
    (h : a.text = b.text) : a = b := by
  have hends : Ends [] := rfl
  exact (charsThen_injective a b ha hb hends hends (String.ofList_injective h)).1

namespace Document

theorem canonicalText_injective {a b : Document}
    (h : a.value.canonicalText = b.value.canonicalText) : a.value = b.value := by
  unfold canonicalText at h
  rw [sorted_of_isWellFormed a.value a.wellFormed,
    sorted_of_isWellFormed b.value b.wellFormed] at h
  exact text_injective a.wellFormed b.wellFormed h

end Document

end Json
end Reckoner
