import Reckoner.Proofs.Decimal.Digits
import Reckoner.Proofs.Fact.Tables
import Reckoner.Proofs.Json.Nodes

/-!
# Where paths lead

A path is walked segment by segment.  What a walk finds is told apart from the walk
itself: the values inside a value stand at addresses, and a segment stands for a step of an
address.  A path leads to what stands at the address that its segments stand for, and
to nothing if there is no such address.
-/

namespace Reckoner

namespace Json

/-!
# Values at addresses
-/

inductive Child : Json -> Step -> Json -> Prop where
  | item {items : List Json} {i : Nat} {child : Json} :
      items[i]? = some child -> Child (.arr items) (.item i) child
  | entry {entries : List (String × Json)} {name : String} {child : Json} :
      (name, child) ∈ entries -> Child (.obj entries) (.entry name) child

inductive Stands : Json -> Address -> Json -> Prop where
  | root (value : Json) : Stands value [] value
  | inside {value child node : Json} {step : Step} {rest : Address} :
      Child value step child -> Stands child rest node -> Stands value (step :: rest) node

end Json

open Json

namespace Path

/-!
# Segments
-/

theorem split_eq_splitOn (text : List Char) : split text = text.splitOn '.' := by
  induction text with
  | nil => rfl
  | cons c rest ih =>
      rw [List.splitOn_cons_eq_if_modifyHead]
      unfold split
      rw [ih]
      by_cases hpoint : c = '.'
      · simp [hpoint]
      · simp only [hpoint, beq_iff_eq, if_false]
        cases hrest : rest.splitOn '.' with
        | nil => exact absurd hrest (List.splitOn_ne_nil '.' rest)
        | cons segment more => rfl

theorem segments_eq_splitOn (path : String) :
    segments path = (path.toList.splitOn '.').map String.ofList := by
  unfold segments
  rw [split_eq_splitOn]

/-- Segments without points are the segments of the path that they are joined to. -/
theorem segments_intercalate {names : List String} (hne : names ≠ [])
    (hnames : ∀ name ∈ names, '.' ∉ name.toList) : segments (".".intercalate names) = names := by
  have hpoint : ".".toList = ['.'] := rfl
  have hlists : names.map String.toList ≠ [] := by simpa using hne
  rw [segments_eq_splitOn, String.toList_intercalate, hpoint,
    List.splitOn_intercalate '.' (by simpa using hnames) hlists, List.map_map]
  simp [Function.comp_def]

theorem segments_ne_nil (path : String) : segments path ≠ [] := by
  rw [segments_eq_splitOn]
  simp

/-!
# Indices
-/

def paddedDigits (zeros n : Nat) : List Char :=
  List.replicate zeros '0' ++ Nat.toDigits 10 n

/-- A text that is read as a number: its digits, with zeros before them or not, and with a plus
sign before these or not. -/
inductive Spells : String -> Nat -> Prop where
  | bare (zeros n : Nat) : Spells (String.ofList (paddedDigits zeros n)) n
  | signed (zeros n : Nat) : Spells (String.ofList ('+' :: paddedDigits zeros n)) n

theorem isDigit_of_mem_paddedDigits {zeros n : Nat} {c : Char} (hc : c ∈ paddedDigits zeros n) :
    Decimal.isDigit c = true := by
  rcases List.mem_append.mp hc with hzero | hdigit
  · rw [List.eq_of_mem_replicate hzero]
    rfl
  · exact Decimal.isDigit_of_mem_toDigits hdigit

theorem digitsValue_paddedDigits (zeros n : Nat) :
    Decimal.digitsValue 0 (paddedDigits zeros n) = n := by
  unfold paddedDigits
  rw [Decimal.digitsValue_zeros_append, Decimal.digitsValue_toDigits]

def afterSign : List Char -> List Char
  | '+' :: digits => digits
  | digits => digits

theorem afterSign_cases (text : List Char) :
    text = afterSign text ∨ text = '+' :: afterSign text := by
  unfold afterSign
  split
  · exact .inr rfl
  · exact .inl rfl

theorem afterSign_paddedDigits (zeros n : Nat) :
    afterSign (paddedDigits zeros n) = paddedDigits zeros n := by
  unfold afterSign
  split
  · rename_i digits hsign
    have hmem : '+' ∈ paddedDigits zeros n := by
      rw [hsign]
      exact List.mem_cons_self
    cases isDigit_of_mem_paddedDigits hmem
  · rfl

def indexOf? (digits : List Char) : Option Nat :=
  if digits.isEmpty || !digits.all Decimal.isDigit then
    none
  else
    let value := Decimal.digitsValue 0 digits
    if value < 0x10000000000000000 then some value else none

theorem index?_eq_indexOf? (segment : String) :
    index? segment = indexOf? (afterSign segment.toList) := rfl

theorem indexOf?_eq_some_iff {digits : List Char} {i : Nat} :
    indexOf? digits = some i ↔ i < 2 ^ 64 ∧ ∃ zeros, digits = paddedDigits zeros i := by
  unfold indexOf?
  constructor
  · intro h
    split at h
    · cases h
    · rename_i hrun
      simp only [Bool.or_eq_true, Bool.not_eq_true', not_or, List.isEmpty_iff,
        Bool.not_eq_false, List.all_eq_true] at hrun
      rcases hrun with ⟨hne, hdigits⟩
      dsimp only at h
      split at h
      · rename_i hsmall
        cases h
        exact ⟨hsmall, Decimal.exists_zeros_toDigits hne hdigits⟩
      · cases h
  · rintro ⟨hsmall, zeros, rfl⟩
    have hempty : (paddedDigits zeros i).isEmpty = false := by
      simp [paddedDigits]
    have hdigits : (paddedDigits zeros i).all Decimal.isDigit = true := by
      rw [List.all_eq_true]
      intro c hc
      exact isDigit_of_mem_paddedDigits hc
    simp only [hempty, hdigits, digitsValue_paddedDigits, Bool.not_true, Bool.or_self,
      Bool.false_eq_true, if_false]
    exact if_pos hsmall

theorem index?_eq_some_iff {segment : String} {i : Nat} :
    index? segment = some i ↔ Spells segment i ∧ i < 2 ^ 64 := by
  rw [index?_eq_indexOf?, indexOf?_eq_some_iff]
  constructor
  · rintro ⟨hsmall, zeros, hdigits⟩
    refine ⟨?_, hsmall⟩
    rw [← String.ofList_toList (s := segment)]
    rcases afterSign_cases segment.toList with hbare | hsigned
    · rw [hbare, hdigits]
      exact .bare zeros i
    · rw [hsigned, hdigits]
      exact .signed zeros i
  · rintro ⟨hspells, hsmall⟩
    refine ⟨hsmall, ?_⟩
    cases hspells with
    | bare zeros =>
        refine ⟨zeros, ?_⟩
        rw [String.toList_ofList, afterSign_paddedDigits]
    | signed zeros =>
        refine ⟨zeros, ?_⟩
        rw [String.toList_ofList]
        rfl

/-!
# Walks
-/

/-- A segment stands for the entry that has its name, and for the index that it spells. -/
inductive Selects : String -> Step -> Prop where
  | entry (name : String) : Selects name (.entry name)
  | item {segment : String} {i : Nat} : Spells segment i -> i < 2 ^ 64 ->
      Selects segment (.item i)

/-- The segments of a path lead to what stands at an address that they stand for. -/
def Leads (segments : List String) (value node : Json) : Prop :=
  ∃ address, List.Forall₂ Selects segments address ∧ Stands value address node

/-- Segments of which one does not stand for a step from where those before it lead. -/
inductive Fails : List String -> Json -> Prop where
  | here {segment : String} {rest : List String} {value : Json} :
      (∀ step child, Selects segment step -> ¬ Child value step child) ->
      Fails (segment :: rest) value
  | later {segment : String} {rest : List String} {value child : Json} {step : Step} :
      Selects segment step -> Child value step child -> Fails rest child ->
      Fails (segment :: rest) value

theorem step?_eq_some_iff {segment : String} {value child : Json}
    (h : value.isWellFormed = true) :
    step? segment value = some child ↔ ∃ step, Selects segment step ∧ Child value step child := by
  cases value with
  | obj entries =>
      have hsorted : Table.Sorted entries := of_decide_eq_true (Bool.and_eq_true_iff.mp h).1
      constructor
      · intro hstep
        exact ⟨.entry segment, .entry segment, .entry (Table.mem_of_get? hstep)⟩
      · rintro ⟨step, hselects, hchild⟩
        cases hchild with
        | entry hmem =>
            cases hselects with
            | entry => exact Table.get?_of_mem hsorted.nodup_keys hmem
  | arr items =>
      constructor
      · intro hstep
        rcases Option.bind_eq_some_iff.mp hstep with ⟨i, hindex, hitem⟩
        rcases index?_eq_some_iff.mp hindex with ⟨hspells, hsmall⟩
        exact ⟨.item i, .item hspells hsmall, .item hitem⟩
      · rintro ⟨step, hselects, hchild⟩
        cases hchild with
        | item hitem =>
            cases hselects with
            | item hspells hsmall =>
                exact Option.bind_eq_some_iff.mpr
                  ⟨_, index?_eq_some_iff.mpr ⟨hspells, hsmall⟩, hitem⟩
  | _ =>
      constructor
      · intro hstep
        cases hstep
      · rintro ⟨step, _, hchild⟩
        cases hchild

theorem walk?_eq_some_iff {segments : List String} {value node : Json}
    (h : value.isWellFormed = true) :
    walk? segments value = some node ↔ Leads segments value node := by
  induction segments generalizing value with
  | nil =>
      constructor
      · intro hwalk
        cases hwalk
        exact ⟨[], .nil, .root _⟩
      · rintro ⟨address, hselects, hstands⟩
        cases hselects
        cases hstands
        rfl
  | cons segment rest ih =>
      constructor
      · intro hwalk
        rcases Option.bind_eq_some_iff.mp hwalk with ⟨child, hstep, hrest⟩
        rcases (step?_eq_some_iff h).mp hstep with ⟨step, hselects, hchild⟩
        rcases (ih (isWellFormed_of_step h hstep)).mp hrest with ⟨address, hrests, hstands⟩
        exact ⟨step :: address, .cons hselects hrests, .inside hchild hstands⟩
      · rintro ⟨address, hselects, hstands⟩
        cases hselects with
        | cons hfirst hrests =>
            cases hstands with
            | inside hchild hstands =>
                have hstep := (step?_eq_some_iff h).mpr ⟨_, hfirst, hchild⟩
                have hwalk := (ih (isWellFormed_of_step h hstep)).mpr ⟨_, hrests, hstands⟩
                exact Option.bind_eq_some_iff.mpr ⟨_, hstep, hwalk⟩

theorem walk?_eq_none_iff {segments : List String} {value : Json}
    (h : value.isWellFormed = true) : walk? segments value = none ↔ Fails segments value := by
  induction segments generalizing value with
  | nil =>
      constructor
      · intro hwalk
        cases hwalk
      · intro hfails
        cases hfails
  | cons segment rest ih =>
      have hwalk : walk? (segment :: rest) value = (step? segment value).bind (walk? rest) := rfl
      rw [hwalk]
      constructor
      · intro hnone
        cases hstep : step? segment value with
        | none =>
            apply Fails.here
            intro step child hselects hchild
            rw [(step?_eq_some_iff h).mpr ⟨step, hselects, hchild⟩] at hstep
            cases hstep
        | some child =>
            rw [hstep] at hnone
            rcases (step?_eq_some_iff h).mp hstep with ⟨step, hselects, hchild⟩
            exact .later hselects hchild ((ih (isWellFormed_of_step h hstep)).mp hnone)
      · intro hfails
        cases hfails with
        | here hno =>
            cases hstep : step? segment value with
            | none => rfl
            | some child =>
                rcases (step?_eq_some_iff h).mp hstep with ⟨step, hselects, hchild⟩
                exact absurd hchild (hno step child hselects)
        | later hselects hchild hrest =>
            have hstep := (step?_eq_some_iff h).mpr ⟨_, hselects, hchild⟩
            rw [hstep]
            exact (ih (isWellFormed_of_step h hstep)).mpr hrest

/-!
# Addresses written as paths
-/

def written : Step -> String
  | .item i => toString i
  | .entry name => name

def ofAddress (address : Address) : String :=
  ".".intercalate (address.map written)

theorem spells_toString (i : Nat) : Spells (toString i) i :=
  .bare 0 i

theorem selects_written {address : Address} (hsmall : ∀ i, Step.item i ∈ address -> i < 2 ^ 64) :
    List.Forall₂ Selects (address.map written) address := by
  rw [List.forall₂_map_left_iff, List.forall₂_same]
  intro step hstep
  cases step with
  | item i => exact .item (spells_toString i) (hsmall i hstep)
  | entry name => exact .entry name

theorem no_point_written {step : Step} (hname : ∀ name, step = .entry name -> '.' ∉ name.toList) :
    '.' ∉ (written step).toList := by
  cases step with
  | item i =>
      intro hpoint
      rw [written, Nat.toString_eq_repr, Nat.toList_repr] at hpoint
      have hdigit : Decimal.isDigit '.' = true := Decimal.isDigit_of_mem_toDigits hpoint
      cases hdigit
  | entry name => exact hname name rfl

theorem segments_ofAddress {address : Address} (hne : address ≠ [])
    (hnames : ∀ name, Step.entry name ∈ address -> '.' ∉ name.toList) :
    segments (ofAddress address) = address.map written := by
  apply segments_intercalate
  · simpa using hne
  · intro name hname
    rcases List.mem_map.mp hname with ⟨step, hstep, rfl⟩
    apply no_point_written
    rintro key rfl
    exact hnames key hstep

end Path

/-!
# What is looked up
-/

theorem Fact.ofJson_ne_absent (value : Json) : Fact.ofJson value ≠ .absent := by
  cases value <;> simp [Fact.ofJson]

namespace Json

theorem lookup_eq {path : String} (hpath : path ≠ "") (facts : Json) :
    facts.lookup path =
      ((Path.walk? (Path.segments path) facts).map Fact.ofJson).getD .absent := by
  have hempty : path.isEmpty = false := by simpa using hpath
  unfold lookup
  rw [hempty]
  cases Path.walk? (Path.segments path) facts <;> rfl

theorem lookup_eq_ofJson_iff {path : String} (hpath : path ≠ "") {facts value : Json} :
    facts.lookup path = Fact.ofJson value ↔
      ∃ node, Path.walk? (Path.segments path) facts = some node ∧
        Fact.ofJson node = Fact.ofJson value := by
  rw [lookup_eq hpath]
  cases Path.walk? (Path.segments path) facts with
  | none => simp [(Fact.ofJson_ne_absent value).symm]
  | some node => simp

theorem lookup_eq_absent_iff {path : String} (hpath : path ≠ "") {facts : Json} :
    facts.lookup path = .absent ↔ Path.walk? (Path.segments path) facts = none := by
  rw [lookup_eq hpath]
  cases Path.walk? (Path.segments path) facts with
  | none => simp
  | some node => simp [Fact.ofJson_ne_absent node]

/-- What is looked up in a document is the value to which the segments of the path lead, and
nothing if one of them leads no further. So every value in a document is found by the path that is
written for its address, if no name in it has a point and the indices, as those of a list in
memory do, fit a word. -/
theorem lookup_exact (facts : Document) :
    (∀ path : String, path ≠ "" ->
      let segments := (path.toList.splitOn '.').map String.ofList
      (∀ a b, Path.Leads segments facts.value a -> Path.Leads segments facts.value b -> a = b) ∧
      (∀ value, facts.value.lookup path = Fact.ofJson value ↔
        ∃ node, Path.Leads segments facts.value node ∧ Fact.ofJson node = Fact.ofJson value) ∧
      (facts.value.lookup path = .absent ↔ Path.Fails segments facts.value)) ∧
    ∀ (address : Address) (node : Json), Stands facts.value address node -> address ≠ [] ->
      (∀ name, Step.entry name ∈ address -> '.' ∉ name.toList) ->
      (∀ i, Step.item i ∈ address -> i < 2 ^ 64) ->
      Path.ofAddress address ≠ "" ->
      facts.value.lookup (Path.ofAddress address) = Fact.ofJson node := by
  have hleads {segments : List String} {node : Json} :
      Path.walk? segments facts.value = some node ↔ Path.Leads segments facts.value node :=
    Path.walk?_eq_some_iff facts.wellFormed
  constructor
  · intro path hpath segments
    have hsegments : Path.segments path = segments := Path.segments_eq_splitOn path
    refine ⟨?_, ?_, ?_⟩
    · intro a b ha hb
      exact Option.some.inj ((hleads.mpr ha).symm.trans (hleads.mpr hb))
    · intro value
      rw [lookup_eq_ofJson_iff hpath, hsegments]
      simp only [hleads]
    · rw [lookup_eq_absent_iff hpath, hsegments]
      exact Path.walk?_eq_none_iff facts.wellFormed
  · intro address node hstands hne hnames hsmall hpath
    rw [lookup_eq_ofJson_iff hpath, Path.segments_ofAddress hne hnames]
    exact ⟨node, hleads.mpr ⟨address, Path.selects_written hsmall, hstands⟩, rfl⟩

/-- Indices with a sign and zeros, an index beyond a word, and names that are empty. -/
theorem lookup_exact_signs :
    let value : Json := .obj [
      ("", .obj [("", .num (.int 7))]),
      ("0", .arr [.null, .arr [.str "x"]])]
    let segments (path : String) : List String := (path.toList.splitOn '.').map String.ofList
    value.isWellFormed = true ∧
      (∃ node, Path.Leads (segments "0.+01.00") value node ∧ Fact.ofJson node = .str "x") ∧
      Path.Fails (segments "0.18446744073709551617") value ∧
      Stands value [.entry "", .entry ""] (.num (.int 7)) ∧ value.lookup "." = .num 7.0 := by
  intro value segments
  have hvalue : value.isWellFormed = true := by decide
  rcases lookup_exact ⟨value, hvalue⟩ with ⟨hpaths, haddresses⟩
  have hstands : Stands value [.entry "", .entry ""] (.num (.int 7)) :=
    .inside (.entry List.mem_cons_self) (.inside (.entry List.mem_cons_self) (.root _))
  refine ⟨hvalue, ?_, ?_, hstands, ?_⟩
  · exact ((hpaths "0.+01.00" (by decide)).2.1 (.str "x")).mp rfl
  · exact (hpaths "0.18446744073709551617" (by decide)).2.2.mp rfl
  · apply haddresses [.entry "", .entry ""] (.num (.int 7)) hstands
    · exact List.cons_ne_nil _ _
    · simp
    · simp
    · decide

end Json
end Reckoner
