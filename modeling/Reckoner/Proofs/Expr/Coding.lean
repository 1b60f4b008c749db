import Reckoner.Expr.Coding
import Reckoner.Proofs.Decimal.Whole
import Reckoner.Proofs.Json.Reading

/-!
# Expressions written and read back

An expression that is nested no deeper than allowed is read back from its value, only that
a zero loses its sign and a number that is not finite becomes null.  One that is nested
deeper is refused.  All expressions that are read from documents have finite numbers and are
nested no deeper than allowed.
-/

namespace Reckoner

/-!
# Numbers, nesting and equality
-/

namespace Literal

def numbers : Literal -> List Float
  | .num value => [value]
  | _ => []

def ofScalar? : Json -> Option Literal
  | .null => some .null
  | .bool value => some (.bool value)
  | .num value => some (.num value.toFloat)
  | .str value => some (.str value)
  | _ => none

def unsigned : Literal -> Literal
  | .num value => .num (Number.unsigned value)
  | other => other

/-- What is read for what is written for a literal: a zero has no sign, and a number that is not
finite is null. -/
def reread : Literal -> Literal
  | .num value => if value.isFinite then .num (Number.unsigned value) else .null
  | other => other

def same : Literal -> Literal -> Bool
  | .null, .null => true
  | .bool a, .bool b => a == b
  | .num a, .num b => a == b
  | .str a, .str b => a == b
  | _, _ => false

theorem reread_num {x : Float} (hx : x.isFinite = true) :
    (num x).reread = .num (Number.unsigned x) :=
  if_pos hx

theorem reread_num_of_not_finite {x : Float} (hx : x.isFinite = false) :
    (num x).reread = .null :=
  if_neg (by rw [hx]; exact Bool.false_ne_true)

theorem toJson_reread (value : Literal) : value.reread.toJson = value.toJson := by
  cases value with
  | null | bool _ | str _ => rfl
  | num x =>
      cases hx : x.isFinite with
      | true =>
          rw [reread_num hx]
          exact Json.ofNumber_unsigned x
      | false =>
          rw [reread_num_of_not_finite hx]
          exact (Json.ofNumber_eq_null hx).symm

theorem same_reread (value : Literal) :
    value.same value.reread = true ↔ ∀ x ∈ value.numbers, x.isFinite = true := by
  cases value with
  | null => exact iff_of_true rfl nofun
  | bool b => exact iff_of_true (beq_self_eq_true b) nofun
  | str text => exact iff_of_true (beq_self_eq_true text) nofun
  | num x =>
      apply Iff.trans _ List.forall_mem_singleton.symm
      cases hx : x.isFinite with
      | true =>
          rw [reread_num hx]
          exact iff_of_true (Number.beq_unsigned hx) rfl
      | false =>
          rw [reread_num_of_not_finite hx]
          exact iff_of_false Bool.false_ne_true Bool.false_ne_true

theorem reread_of_finite (value : Literal) (h : ∀ x ∈ value.numbers, x.isFinite = true) :
    value.reread = value.unsigned := by
  cases value with
  | null | bool _ | str _ => rfl
  | num x => exact reread_num (h x List.mem_cons_self)

end Literal

namespace Expr

mutual

def numbers : Expr -> List Float
  | .literal value => value.numbers
  | .list items => numbersOf items
  | .var _ => []
  | .call _ args => numbersOf args

def numbersOf : List Expr -> List Float
  | [] => []
  | e :: rest => e.numbers ++ numbersOf rest

end

mutual

/-- The depth of the deepest node below the root. -/
def nesting : Expr -> Nat
  | .literal _ => 0
  | .list items => nestingOf items
  | .var _ => 0
  | .call _ args => nestingOf args

def nestingOf : List Expr -> Nat
  | [] => 0
  | e :: rest => max (e.nesting + 1) (nestingOf rest)

end

mutual

/-- The expression without the signs of zeros. -/
def unsigned : Expr -> Expr
  | .literal value => .literal value.unsigned
  | .list items => .list (unsignedItems items)
  | .var path => .var path
  | .call op args => .call op (unsignedItems args)

def unsignedItems : List Expr -> List Expr
  | [] => []
  | e :: rest => e.unsigned :: unsignedItems rest

end

mutual

def reread : Expr -> Expr
  | .literal value => .literal value.reread
  | .list items => .list (rereadItems items)
  | .var path => .var path
  | .call op args => .call op (rereadItems args)

def rereadItems : List Expr -> List Expr
  | [] => []
  | e :: rest => e.reread :: rereadItems rest

end

mutual

def same : Expr -> Expr -> Bool
  | .literal a, .literal b => a.same b
  | .list as, .list bs => sameItems as bs
  | .var a, .var b => a == b
  | .call op as, .call op' bs => op == op' && sameItems as bs
  | _, _ => false

def sameItems : List Expr -> List Expr -> Bool
  | [], [] => true
  | a :: as, b :: bs => a.same b && sameItems as bs
  | _, _ => false

end

theorem nestingOf_cons_le_iff {e : Expr} {es : List Expr} {depth bound : Nat} :
    depth + nestingOf (e :: es) ≤ bound + 1 ↔
      depth + e.nesting ≤ bound ∧ depth + nestingOf es ≤ bound + 1 := by
  change depth + max (e.nesting + 1) (nestingOf es) ≤ bound + 1 ↔ _
  omega

structure FitsAt (e : Expr) (depth : Nat) : Prop where
  finite : ∀ x ∈ e.numbers, x.isFinite = true
  nesting : depth + e.nesting ≤ maxNesting

structure AllFitAt (es : List Expr) (depth : Nat) : Prop where
  finite : ∀ x ∈ numbersOf es, x.isFinite = true
  nesting : depth + nestingOf es ≤ maxNesting + 1

namespace AllFitAt

variable {e : Expr} {es : List Expr} {depth : Nat}

theorem nil (h : depth ≤ maxNesting + 1) : AllFitAt [] depth :=
  ⟨fun _ hx => absurd hx List.not_mem_nil, h⟩

theorem cons (he : e.FitsAt depth) (hes : AllFitAt es depth) : AllFitAt (e :: es) depth := by
  constructor
  · exact List.forall_mem_append.mpr ⟨he.finite, hes.finite⟩
  · exact nestingOf_cons_le_iff.mpr ⟨he.nesting, hes.nesting⟩

theorem below (h : AllFitAt es (depth + 1)) : depth + nestingOf es ≤ maxNesting := by
  have hnesting := h.nesting
  omega

theorem list (h : AllFitAt es (depth + 1)) : (Expr.list es).FitsAt depth :=
  ⟨h.finite, h.below⟩

theorem call (op : Op) (h : AllFitAt es (depth + 1)) : (Expr.call op es).FitsAt depth :=
  ⟨h.finite, h.below⟩

end AllFitAt

/-!
# Reading expressions
-/

theorem parseAt_of_lt {depth : Nat} (h : maxNesting < depth) (value : Json) :
    parseAt depth value = .error (.tooDeep maxNesting) := by
  unfold parseAt
  exact if_pos h

section ParseAt

variable {depth : Nat} (h : depth ≤ maxNesting)

include h

theorem parseAt_arr (items : List Json) :
    parseAt depth (.arr items) = (parseItems (depth + 1) items).map .list := by
  unfold parseAt
  rw [if_neg (Nat.not_lt.mpr h)]

theorem parseAt_scalar {value : Json} {e : Literal} (he : Literal.ofScalar? value = some e) :
    parseAt depth value = .ok (.literal e) := by
  unfold parseAt
  rw [if_neg (Nat.not_lt.mpr h)]
  cases value <;> cases he <;> rfl

theorem parseAt_call {op : Op} {entries : List (String × Json)}
    (hop : Table.get? entries "op" = some (.str op.name)) :
    parseAt depth (.obj entries) =
      (parseArgs (depth + 1) op.name entries).map (.call op) := by
  unfold parseAt
  rw [if_neg (Nat.not_lt.mpr h)]
  simp only [hop, Op.ofName?_name]

theorem parseAt_var {path : String} {entries : List (String × Json)}
    (hop : Table.get? entries "op" = none) (hvar : Table.get? entries "var" = some (.str path)) :
    parseAt depth (.obj entries) = .ok (.var path) := by
  unfold parseAt
  rw [if_neg (Nat.not_lt.mpr h)]
  simp only [hop, hvar]

end ParseAt

theorem parseItems_cons (depth : Nat) (item : Json) (rest : List Json) :
    parseItems depth (item :: rest) =
      (parseAt depth item).bind fun e => (parseItems depth rest).bind fun es => .ok (e :: es) := by
  rw [parseItems]
  rfl

theorem le_of_parseAt {depth : Nat} {value : Json} {e : Expr} (h : parseAt depth value = .ok e) :
    depth ≤ maxNesting := by
  unfold parseAt at h
  split at h
  · cases h
  · omega

theorem cases_of_parseAt_obj {depth : Nat} {entries : List (String × Json)} {e : Expr}
    (h : parseAt depth (.obj entries) = .ok e) :
    (∃ op args, parseArgs (depth + 1) op.name entries = .ok args ∧ e = .call op args) ∨
      ∃ path, e = .var path := by
  unfold parseAt at h
  split at h
  · cases h
  · dsimp only at h
    split at h
    · rename_i name _
      split at h
      · cases h
      · rename_i op hop
        rw [← Op.name_of_ofName? hop] at h
        obtain ⟨args, hargs, hcall⟩ := exists_of_map_eq_ok h
        exact .inl ⟨op, args, hargs, hcall.symm⟩
    · cases h
    · split at h
      · rename_i path _
        cases h
        exact .inr ⟨path, rfl⟩
      · cases h
      · cases h

/-!
# Written expressions
-/

mutual

theorem toJson_unsigned : ∀ e : Expr, e.unsigned.toJson = e.toJson
  | .literal .null => rfl
  | .literal (.bool _) => rfl
  | .literal (.num x) => Json.ofNumber_unsigned x
  | .literal (.str _) => rfl
  | .list items => congrArg Json.arr (toItems_unsigned items)
  | .var _ => rfl
  | .call op args => by
      show Json.obj [("args", .arr (toItems (unsignedItems args))), ("op", .str op.name)] = _
      rw [toItems_unsigned args]
      rfl

theorem toItems_unsigned : ∀ es : List Expr, toItems (unsignedItems es) = toItems es
  | [] => rfl
  | e :: rest => by
      show e.unsigned.toJson :: toItems (unsignedItems rest) = e.toJson :: toItems rest
      rw [toJson_unsigned e, toItems_unsigned rest]

end

mutual

theorem unsigned_of_numbers : ∀ e : Expr, (∀ x ∈ e.numbers, x ≠ -0.0) -> e.unsigned = e
  | .literal .null, _ => rfl
  | .literal (.bool _), _ => rfl
  | .literal (.num x), h => by
      show Expr.literal (.num (Number.unsigned x)) = _
      rw [Number.unsigned_of_ne (h x List.mem_cons_self)]
  | .literal (.str _), _ => rfl
  | .list items, h => congrArg Expr.list (unsignedItems_of_numbers items h)
  | .var _, _ => rfl
  | .call op args, h => congrArg (Expr.call op) (unsignedItems_of_numbers args h)

theorem unsignedItems_of_numbers : ∀ es : List Expr,
    (∀ x ∈ numbersOf es, x ≠ -0.0) -> unsignedItems es = es
  | [], _ => rfl
  | e :: rest, h => by
      show e.unsigned :: unsignedItems rest = e :: rest
      rw [unsigned_of_numbers e fun x hx => h x (List.mem_append_left _ hx),
        unsignedItems_of_numbers rest fun x hx => h x (List.mem_append_right _ hx)]

end

mutual

theorem toJson_reread : ∀ e : Expr, e.reread.toJson = e.toJson
  | .literal value => Literal.toJson_reread value
  | .list items => congrArg Json.arr (toItems_rereadItems items)
  | .var _ => rfl
  | .call op args => by
      change Json.obj [("args", .arr (toItems (rereadItems args))), ("op", .str op.name)] = _
      rw [toItems_rereadItems args]
      rfl

theorem toItems_rereadItems : ∀ es : List Expr, toItems (rereadItems es) = toItems es
  | [] => rfl
  | e :: rest => by
      change e.reread.toJson :: toItems (rereadItems rest) = e.toJson :: toItems rest
      rw [toJson_reread e, toItems_rereadItems rest]

end

mutual

theorem same_reread : ∀ e : Expr,
    e.same e.reread = true ↔ ∀ x ∈ e.numbers, x.isFinite = true
  | .literal value => Literal.same_reread value
  | .list items => sameItems_reread items
  | .var path => iff_of_true (beq_self_eq_true path) nofun
  | .call op args => by
      change (op == op && sameItems args (rereadItems args)) = true ↔ _
      rw [beq_self_eq_true, Bool.true_and]
      exact sameItems_reread args

theorem sameItems_reread : ∀ es : List Expr,
    sameItems es (rereadItems es) = true ↔ ∀ x ∈ numbersOf es, x.isFinite = true
  | [] => iff_of_true rfl nofun
  | e :: rest => by
      change (e.same e.reread && sameItems rest (rereadItems rest)) = true ↔
        ∀ x ∈ e.numbers ++ numbersOf rest, x.isFinite = true
      rw [Bool.and_eq_true_iff, same_reread e, sameItems_reread rest, List.forall_mem_append]

end

mutual

theorem reread_of_finite : ∀ e : Expr, (∀ x ∈ e.numbers, x.isFinite = true) ->
    e.reread = e.unsigned
  | .literal value, h => congrArg Expr.literal (Literal.reread_of_finite value h)
  | .list items, h => congrArg Expr.list (rereadItems_of_finite items h)
  | .var _, _ => rfl
  | .call op args, h => congrArg (Expr.call op) (rereadItems_of_finite args h)

theorem rereadItems_of_finite : ∀ es : List Expr, (∀ x ∈ numbersOf es, x.isFinite = true) ->
    rereadItems es = unsignedItems es
  | [], _ => rfl
  | e :: rest, h => by
      rcases List.forall_mem_append.mp h with ⟨hhead, hrest⟩
      change e.reread :: rereadItems rest = e.unsigned :: unsignedItems rest
      rw [reread_of_finite e hhead, rereadItems_of_finite rest hrest]

end

theorem same_unsigned (e : Expr) (h : ∀ x ∈ e.numbers, x.isFinite = true) :
    e.same e.unsigned = true := by
  rw [← reread_of_finite e h]
  exact (same_reread e).mpr h

mutual

theorem isWellFormed_toJson : ∀ e : Expr, (∀ x ∈ e.numbers, x.isFinite = true) ->
    e.toJson.isWellFormed = true
  | .literal .null, _ => rfl
  | .literal (.bool _), _ => rfl
  | .literal (.num x), h => by
      obtain ⟨n, hn, hformed, _⟩ := Json.exists_ofNumber (h x List.mem_cons_self)
      show (Json.ofNumber x).isWellFormed = true
      rw [hn]
      exact hformed
  | .literal (.str _), _ => rfl
  | .list items, h => wellFormedItems_toItems items h
  | .var _, _ => rfl
  | .call op args, h => by
      have hsorted : Table.Sorted [("args", Json.arr (toItems args)), ("op", .str op.name)] :=
        List.pairwise_pair.mpr (show "args" < "op" by decide)
      show (decide (Table.Sorted _) && (Json.wellFormedItems (toItems args) && _)) = true
      rw [decide_eq_true hsorted, wellFormedItems_toItems args h]
      rfl

theorem wellFormedItems_toItems : ∀ es : List Expr, (∀ x ∈ numbersOf es, x.isFinite = true) ->
    Json.wellFormedItems (toItems es) = true
  | [], _ => rfl
  | e :: rest, h => by
      apply Bool.and_eq_true_iff.mpr
      constructor
      · exact isWellFormed_toJson e fun x hx => h x (List.mem_append_left _ hx)
      · exact wellFormedItems_toItems rest fun x hx => h x (List.mem_append_right _ hx)

end

theorem parseAt_toJson_literal {depth : Nat} (h : depth ≤ maxNesting) (value : Literal) :
    parseAt depth value.toJson = .ok (.literal value.reread) := by
  cases value with
  | null | bool _ | str _ => exact parseAt_scalar h rfl
  | num x =>
      change parseAt depth (Json.ofNumber x) = .ok (.literal (Literal.reread (.num x)))
      cases hx : x.isFinite with
      | true =>
          -- a whole number is written as an integer, which is read as a double again
          rcases Json.exists_ofNumber hx with ⟨n, hn, _, hread⟩
          rw [hn, Literal.reread_num hx, ← hread]
          exact parseAt_scalar h rfl
      | false =>
          rw [Json.ofNumber_eq_null hx, Literal.reread_num_of_not_finite hx]
          exact parseAt_scalar h rfl

/-- The children of a node are read one level below it. -/
theorem map_parseItems_toItems {es : List Expr} {depth : Nat}
    (h : parseItems (depth + 1) (toItems es) =
      if depth + 1 + nestingOf es ≤ maxNesting + 1 then .ok (rereadItems es)
      else .error (.tooDeep maxNesting)) (build : List Expr -> Expr) :
    (parseItems (depth + 1) (toItems es)).map build =
      if depth + nestingOf es ≤ maxNesting then .ok (build (rereadItems es))
      else .error (.tooDeep maxNesting) := by
  have hlevel : depth + 1 + nestingOf es ≤ maxNesting + 1 ↔ depth + nestingOf es ≤ maxNesting := by
    omega
  rw [h]
  simp only [hlevel]
  split
  all_goals rfl

mutual

/-- What is written for an expression is read if it is nested no deeper than allowed. -/
theorem parseAt_toJson_eq : ∀ (e : Expr) (depth : Nat), parseAt depth e.toJson =
    if depth + e.nesting ≤ maxNesting then .ok e.reread else .error (.tooDeep maxNesting)
  | e, depth => by
      by_cases hdepth : depth ≤ maxNesting
      · cases e with
        | literal value => exact (parseAt_toJson_literal hdepth value).trans (if_pos hdepth).symm
        | var path => exact (parseAt_var hdepth rfl rfl).trans (if_pos hdepth).symm
        | list items =>
            have hitems := parseItems_toItems_eq items (depth + 1) (Nat.succ_le_succ hdepth)
            exact (parseAt_arr hdepth _).trans (map_parseItems_toItems hitems .list)
        | call op args =>
            have hargs := parseItems_toItems_eq args (depth + 1) (Nat.succ_le_succ hdepth)
            change parseAt depth (.obj [("args", .arr (toItems args)), ("op", .str op.name)]) = _
            rw [parseAt_call hdepth rfl, parseArgs, if_pos rfl]
            exact map_parseItems_toItems hargs (.call op)
      · have hdeep : ¬ depth + e.nesting ≤ maxNesting := by omega
        rw [parseAt_of_lt (Nat.not_le.mp hdepth), if_neg hdeep]

theorem parseItems_toItems_eq : ∀ (es : List Expr) (depth : Nat), depth ≤ maxNesting + 1 ->
    parseItems depth (toItems es) =
      if depth + nestingOf es ≤ maxNesting + 1 then .ok (rereadItems es)
      else .error (.tooDeep maxNesting)
  | [], _, hdepth => (if_pos hdepth).symm
  | e :: rest, depth, hdepth => by
      change parseItems depth (e.toJson :: toItems rest) = _
      rw [parseItems_cons, parseAt_toJson_eq e depth, parseItems_toItems_eq rest depth hdepth]
      simp only [nestingOf_cons_le_iff]
      by_cases hhead : depth + e.nesting ≤ maxNesting
      · by_cases hrest : depth + nestingOf rest ≤ maxNesting + 1
        · rw [if_pos hhead, if_pos hrest, if_pos ⟨hhead, hrest⟩]
          rfl
        · rw [if_pos hhead, if_neg hrest, if_neg (not_and_of_not_right _ hrest)]
          rfl
      · rw [if_neg hhead, if_neg (not_and_of_not_left _ hhead)]
        rfl

end

theorem parseAt_toJson (e : Expr) {depth : Nat} (h : e.FitsAt depth) :
    parseAt depth e.toJson = .ok e.unsigned := by
  rw [parseAt_toJson_eq, if_pos h.nesting, reread_of_finite e h.finite]

/-!
# Expressions that have been read
-/

theorem fitsAt_of_parseAt_scalar {value : Json} {depth : Nat} {e : Expr} {literal : Literal}
    (hvalue : value.isWellFormed = true) (hliteral : Literal.ofScalar? value = some literal)
    (h : parseAt depth value = .ok e) : e.FitsAt depth := by
  have hdepth := le_of_parseAt h
  rw [parseAt_scalar hdepth hliteral] at h
  cases h
  refine ⟨?_, hdepth⟩
  cases value with
  | num n =>
      cases hliteral
      intro x hx
      rw [List.mem_singleton.mp hx]
      exact Number.isFinite_toFloat hvalue
  | null | bool _ | str _ =>
      cases hliteral
      exact fun x hx => absurd hx List.not_mem_nil
  | arr _ | obj _ => cases hliteral

mutual

theorem fitsAt_of_parseAt : ∀ (value : Json) {depth : Nat} {e : Expr},
    value.isWellFormed = true -> parseAt depth value = .ok e -> e.FitsAt depth
  | .null, _, _, hvalue, h => fitsAt_of_parseAt_scalar hvalue rfl h
  | .bool _, _, _, hvalue, h => fitsAt_of_parseAt_scalar hvalue rfl h
  | .num _, _, _, hvalue, h => fitsAt_of_parseAt_scalar hvalue rfl h
  | .str _, _, _, hvalue, h => fitsAt_of_parseAt_scalar hvalue rfl h
  | .arr items, depth, e, hvalue, h => by
      have hdepth := le_of_parseAt h
      rw [parseAt_arr hdepth] at h
      obtain ⟨es, hitems, rfl⟩ := exists_of_map_eq_ok h
      exact (allFitAt_of_parseItems items (by omega) hvalue hitems).list
  | .obj entries, depth, e, hvalue, h => by
      have hdepth := le_of_parseAt h
      rcases cases_of_parseAt_obj h with ⟨op, args, hargs, rfl⟩ | ⟨path, rfl⟩
      · apply AllFitAt.call
        exact allFitAt_of_parseArgs entries (by omega) (Bool.and_eq_true_iff.mp hvalue).2 hargs
      · exact ⟨fun x hx => absurd hx List.not_mem_nil, hdepth⟩

theorem allFitAt_of_parseItems : ∀ (items : List Json) {depth : Nat} {es : List Expr},
    depth ≤ maxNesting + 1 -> Json.wellFormedItems items = true ->
    parseItems depth items = .ok es -> AllFitAt es depth
  | [], depth, es, hdepth, _, h => by
      cases h
      exact .nil hdepth
  | item :: rest, depth, es, hdepth, hitems, h => by
      rcases Bool.and_eq_true_iff.mp hitems with ⟨hitem, hrest⟩
      rw [parseItems_cons] at h
      obtain ⟨e, hhead, h⟩ := exists_of_bind_eq_ok h
      obtain ⟨tail, htail, h⟩ := exists_of_bind_eq_ok h
      cases h
      exact .cons (fitsAt_of_parseAt item hitem hhead)
        (allFitAt_of_parseItems rest hdepth hrest htail)

theorem allFitAt_of_parseArgs : ∀ (entries : List (String × Json)) {depth : Nat}
    {operator : String} {es : List Expr}, depth ≤ maxNesting + 1 ->
    Json.wellFormedEntries entries = true ->
    parseArgs depth operator entries = .ok es -> AllFitAt es depth
  | [], depth, _, es, hdepth, _, h => by
      cases h
      exact .nil hdepth
  | (name, value) :: rest, depth, operator, es, hdepth, hentries, h => by
      rcases Bool.and_eq_true_iff.mp hentries with ⟨hvalue, hrest⟩
      unfold parseArgs at h
      split at h
      · split at h
        · rename_i items
          exact allFitAt_of_parseItems items hdepth hvalue h
        · cases h
          exact .nil hdepth
        · cases h
      · exact allFitAt_of_parseArgs rest hdepth hrest h

end

theorem isMarked_of_parseAt_obj {depth : Nat} {entries : List (String × Json)} {e : Expr}
    (h : parseAt depth (.obj entries) = .ok e) :
    ∃ written, e.toJson = .obj written ∧ isMarked written = true := by
  rcases cases_of_parseAt_obj h with ⟨op, args, _, rfl⟩ | ⟨path, rfl⟩
  · exact ⟨_, rfl, rfl⟩
  · exact ⟨_, rfl, rfl⟩

/-!
# Null
-/

theorem toJson_ne_null {e : Expr} {depth : Nat} (h : e.FitsAt depth)
    (hne : e ≠ .literal .null) : e.toJson ≠ .null := by
  cases e with
  | literal value =>
      cases value with
      | null => exact absurd rfl hne
      | num x =>
          obtain ⟨n, hn, _⟩ := Json.exists_ofNumber (h.finite x List.mem_cons_self)
          show Json.ofNumber x ≠ .null
          rw [hn]
          exact Json.noConfusion
      | bool _ | str _ => exact Json.noConfusion
  | list _ | var _ | call _ _ => exact Json.noConfusion

theorem ne_null_of_parseAt {depth : Nat} {value : Json} {e : Expr} (hvalue : value ≠ .null)
    (h : parseAt depth value = .ok e) : e ≠ .literal .null := by
  rintro rfl
  have hdepth := le_of_parseAt h
  cases value with
  | null => exact hvalue rfl
  | bool _ | num _ | str _ =>
      rw [parseAt_scalar hdepth rfl] at h
      cases h
  | arr items =>
      rw [parseAt_arr hdepth] at h
      obtain ⟨es, _, hlist⟩ := exists_of_map_eq_ok h
      cases hlist
  | obj entries =>
      rcases cases_of_parseAt_obj h with ⟨_, _, _, he⟩ | ⟨_, he⟩ <;> cases he

/-!
# Decoding
-/

open Json Decoder

theorem sorted_toJson {e : Expr} {depth : Nat} (h : e.FitsAt depth) :
    e.toJson.sorted = e.toJson :=
  sorted_of_isWellFormed _ (isWellFormed_toJson e h.finite)

theorem fromValue_toJson {e : Expr} (h : e.FitsAt 0) :
    fromValue decoder e.toJson = .ok e.unsigned :=
  fromValue_via (isWellFormed_toJson e h.finite) (parseAt_toJson e h)

theorem fitsAt_of_fromValue {value : Json} (hvalue : value.isWellFormed = true) {e : Expr}
    (h : fromValue decoder value = .ok e) : e.FitsAt 0 :=
  fitsAt_of_parseAt value hvalue (made_of_via hvalue h)

end Expr
end Reckoner
