import Reckoner.Proofs.Expr.Coding
import Reckoner.Proofs.Json.Nodes

/-!
# The grammar of expressions

Which values are expressions is said twice: by the faults that a node can have, in the
order in which they are looked for, and by a grammar, which knows neither depth nor
errors.  Reading fails with the first fault of a node, and succeeds if there is none.
The grammar describes the values of which no node has a fault of its own, so the two
agree up to depth.
-/

namespace Reckoner
namespace Expr

open Json

/-!
# Nodes
-/

/-- The values that are read as expressions directly below a value: the items of a list, and the
arguments of a call. -/
def operands : Json -> List Json
  | .arr items => items
  | .obj entries =>
      match Table.get? entries "op", Table.get? entries "args" with
      | some _, some (.arr args) => args
      | _, _ => []
  | _ => []

def argsFault? (operator : String) : Option Json -> Option EvalError
  | none | some .null | some (.arr _) => none
  | some _ => some (.malformed (.argumentsNotList operator))

/-- The fault of a value as an expression, apart from its depth and from what is below it. -/
def misspelling? : Json -> Option EvalError
  | .obj entries =>
      match Table.get? entries "op" with
      | some (.str name) =>
          match Op.ofName? name with
          | some _ => argsFault? name (Table.get? entries "args")
          | none => some (.unknownOperator name)
      | some _ => some (.malformed .operatorNotText)
      | none =>
          match Table.get? entries "var" with
          | some (.str _) => none
          | some _ => some (.malformed .pathNotText)
          | none => some (.malformed .neither)
  | _ => none

def fault? (depth : Nat) (value : Json) : Option EvalError :=
  if maxNesting < depth then some (.tooDeep maxNesting) else misspelling? value

theorem sizeOf_lt_of_mem_operands {value operand : Json} (h : operand ∈ operands value) :
    sizeOf operand < sizeOf value := by
  cases value with
  | arr items => exact sizeOf_lt_arr h
  | obj entries =>
      unfold operands at h
      dsimp only at h
      split at h
      · rename_i args _ hargs
        have hentry : sizeOf (Json.arr args) < sizeOf (Json.obj entries) :=
          sizeOf_lt_obj (Table.mem_of_get? hargs)
        exact Nat.lt_trans (sizeOf_lt_arr h) hentry
      · cases h
  | null | bool _ | num _ | str _ => cases h

def reading : Reading where
  below value := itemSteps (operands value)
  Faulty depth value e := fault? depth value = some e
  smaller := fun _ _ hentry => sizeOf_lt_of_mem_operands (mem_of_mem_itemSteps hentry)

/-!
# The parser, node by node
-/

theorem parseItems_eq_mapM (depth : Nat) (items : List Json) :
    parseItems depth items = items.mapM (parseAt depth) := by
  induction items with
  | nil =>
      rw [parseItems]
      rfl
  | cons item rest ih =>
      rw [parseItems_cons, ih, List.mapM_cons]
      rfl

def argsAt (depth : Nat) (operator : String) : Option Json -> Except EvalError (List Expr)
  | none => .ok []
  | some (.arr args) => args.mapM (parseAt depth)
  | some .null => .ok []
  | some _ => .error (.malformed (.argumentsNotList operator))

theorem parseArgs_eq (depth : Nat) (operator : String) (entries : List (String × Json)) :
    parseArgs depth operator entries = argsAt depth operator (Table.get? entries "args") := by
  induction entries with
  | nil =>
      rw [parseArgs]
      rfl
  | cons entry rest ih =>
      rcases entry with ⟨name, value⟩
      unfold parseArgs Table.get?
      by_cases hname : name = "args"
      · rw [if_pos hname, if_pos hname]
        cases value with
        | arr args => exact parseItems_eq_mapM depth args
        | null | bool _ | num _ | str _ | obj _ => rfl
      · rw [if_neg hname, if_neg hname]
        exact ih

theorem argsAt_of_argsFault? {depth : Nat} {operator : String} {args : Option Json} {e : EvalError}
    (h : argsFault? operator args = some e) : argsAt depth operator args = .error e := by
  rcases args with _ | (_ | _ | _ | _ | _ | _)
  all_goals
    cases h
  all_goals rfl

theorem parseAt_of_misspelling? {depth : Nat} (hdepth : depth ≤ maxNesting) {value : Json}
    {e : EvalError} (h : misspelling? value = some e) : parseAt depth value = .error e := by
  cases value with
  | null | bool _ | num _ | str _ | arr _ => cases h
  | obj entries =>
      unfold parseAt
      rw [if_neg (Nat.not_lt.mpr hdepth)]
      simp only [parseArgs_eq]
      unfold misspelling? at h
      dsimp only at h
      -- of the entries only three count
      generalize Table.get? entries "op" = op at h ⊢
      generalize Table.get? entries "args" = args at h ⊢
      generalize Table.get? entries "var" = path at h ⊢
      rcases op with _ | op
      · rcases path with _ | (_ | _ | _ | _ | _ | _)
        all_goals
          cases h
        all_goals rfl
      · cases op with
        | str name =>
            dsimp only at h ⊢
            cases hname : Op.ofName? name with
            | none =>
                rw [hname] at h
                cases h
                rfl
            | some op =>
                rw [hname] at h
                dsimp only
                rw [argsAt_of_argsFault? h]
                rfl
        | null | bool _ | num _ | arr _ | obj _ =>
            cases h
            rfl

theorem parseAt_of_fault? {depth : Nat} {value : Json} {e : EvalError}
    (h : fault? depth value = some e) : parseAt depth value = .error e := by
  unfold fault? at h
  split at h
  · rename_i hdepth
    cases h
    exact parseAt_of_lt hdepth value
  · rename_i hdepth
    exact parseAt_of_misspelling? (Nat.not_lt.mp hdepth) h

/-!
# Nodes without a fault
-/

section Forms

variable {entries : List (String × Json)}

/-- An object without a fault of its own is a call without arguments, a call with a list of
them, or a path. -/
theorem cases_of_misspelling? (h : misspelling? (.obj entries) = none) :
    (∃ op : Op, Table.get? entries "op" = some (.str op.name) ∧
        (Table.get? entries "args" = none ∨ Table.get? entries "args" = some .null)) ∨
      (∃ (op : Op) (args : List Json), Table.get? entries "op" = some (.str op.name) ∧
        Table.get? entries "args" = some (.arr args)) ∨
      ∃ text, Table.get? entries "op" = none ∧ Table.get? entries "var" = some (.str text) := by
  unfold misspelling? at h
  dsimp only at h
  split at h
  · rename_i name hop
    split at h
    · rename_i op hname
      rw [← Op.name_of_ofName? hname] at hop
      unfold argsFault? at h
      split at h
      · rename_i hargs
        exact Or.inl ⟨op, hop, Or.inl hargs⟩
      · rename_i hargs
        exact Or.inl ⟨op, hop, Or.inr hargs⟩
      · rename_i args hargs
        exact Or.inr (Or.inl ⟨op, args, hop, hargs⟩)
      · cases h
    · cases h
  · cases h
  · rename_i hop
    split at h
    · rename_i text hvar
      exact Or.inr (Or.inr ⟨text, hop, hvar⟩)
    · cases h
    · cases h

theorem operands_of_no_args
    (h : Table.get? entries "args" = none ∨ Table.get? entries "args" = some .null) :
    operands (.obj entries) = [] := by
  unfold operands
  dsimp only
  split
  · rename_i hargs
    rw [hargs] at h
    rcases h with h | h
    all_goals cases h
  · rfl

theorem operands_of_args {op : Json} {args : List Json} (hop : Table.get? entries "op" = some op)
    (hargs : Table.get? entries "args" = some (.arr args)) : operands (.obj entries) = args := by
  unfold operands
  simp only [hop, hargs]

theorem operands_of_no_op (hop : Table.get? entries "op" = none) :
    operands (.obj entries) = [] := by
  unfold operands
  simp only [hop]

end Forms

/-- A node without a fault stands for what is made of its operands. -/
theorem exists_parseAt_of_fault? {depth : Nat} {value : Json} (h : fault? depth value = none) :
    ∃ build, parseAt depth value =
      ((operands value).mapM (parseAt (depth + 1))).map build := by
  unfold fault? at h
  split at h
  · cases h
  · rename_i hdepth
    have hle : depth ≤ maxNesting := Nat.not_lt.mp hdepth
    cases value with
    | null => exact ⟨fun _ => .literal .null, parseAt_scalar hle rfl⟩
    | bool value => exact ⟨fun _ => .literal (.bool value), parseAt_scalar hle rfl⟩
    | num value => exact ⟨fun _ => .literal (.num value.toFloat), parseAt_scalar hle rfl⟩
    | str value => exact ⟨fun _ => .literal (.str value), parseAt_scalar hle rfl⟩
    | arr items =>
        refine ⟨.list, ?_⟩
        rw [parseAt_arr hle, parseItems_eq_mapM]
        rfl
    | obj entries =>
        rcases cases_of_misspelling? h with ⟨op, hop, hargs⟩ | ⟨op, args, hop, hargs⟩ |
          ⟨text, hop, hvar⟩
        · refine ⟨.call op, ?_⟩
          rw [parseAt_call hle hop, parseArgs_eq, operands_of_no_args hargs]
          rcases hargs with hargs | hargs
          all_goals
            rw [hargs]
            rfl
        · refine ⟨.call op, ?_⟩
          rw [parseAt_call hle hop, parseArgs_eq, operands_of_args hop hargs, hargs]
          rfl
        · refine ⟨fun _ => .var text, ?_⟩
          rw [parseAt_var hle hop hvar, operands_of_no_op hop]
          rfl

theorem reads_parseAt (value : Json) (depth : Nat) :
    reading.Reads (reading.Node value) depth (parseAt depth value) := by
  induction value using reading.induction generalizing depth with
  | h value ih =>
      cases hfault : fault? depth value with
      | some e =>
          rw [parseAt_of_fault? hfault]
          apply Reading.reads_of_fault hfault
          intro e' hother
          exact Option.some.inj (hother.symm.trans hfault)
      | none =>
          rcases exists_parseAt_of_fault? hfault with ⟨build, hbuild⟩
          rw [hbuild]
          apply Reading.reads_of_below
          · intro e hother
            cases hother.symm.trans hfault
          · apply Reading.Reads.map
            exact Reading.reads_items fun entry hentry => ih entry hentry (depth + 1)

/-!
# The grammar
-/

/-- The values that are expressions, however deep they are nested. -/
inductive Spelled : Json -> Prop where
  | null : Spelled .null
  | bool (value : Bool) : Spelled (.bool value)
  | num (value : Number) : Spelled (.num value)
  | str (value : String) : Spelled (.str value)
  | list {items : List Json} : (∀ item ∈ items, Spelled item) -> Spelled (.arr items)
  | call {op : Op} {entries : List (String × Json)} :
      Table.get? entries "op" = some (.str op.name) ->
      (Table.get? entries "args" = none ∨ Table.get? entries "args" = some .null) ->
      Spelled (.obj entries)
  | callWith {op : Op} {entries : List (String × Json)} {args : List Json} :
      Table.get? entries "op" = some (.str op.name) ->
      Table.get? entries "args" = some (.arr args) -> (∀ arg ∈ args, Spelled arg) ->
      Spelled (.obj entries)
  | path {text : String} {entries : List (String × Json)} :
      Table.get? entries "op" = none -> Table.get? entries "var" = some (.str text) ->
      Spelled (.obj entries)

theorem misspelling?_of_op {op : Op} {entries : List (String × Json)}
    (hop : Table.get? entries "op" = some (.str op.name)) :
    misspelling? (.obj entries) = argsFault? op.name (Table.get? entries "args") := by
  unfold misspelling?
  simp only [hop, Op.ofName?_name]

theorem spelled_iff {value : Json} :
    Spelled value ↔ misspelling? value = none ∧ ∀ operand ∈ operands value, Spelled operand := by
  constructor
  · intro h
    cases h with
    | null | bool _ | num _ | str _ => exact ⟨rfl, nofun⟩
    | list hitems => exact ⟨rfl, hitems⟩
    | call hop hargs =>
        rw [misspelling?_of_op hop, operands_of_no_args hargs]
        refine ⟨?_, nofun⟩
        rcases hargs with hargs | hargs
        all_goals
          rw [hargs]
          rfl
    | callWith hop hargs hspelled =>
        rw [misspelling?_of_op hop, operands_of_args hop hargs, hargs]
        exact ⟨rfl, hspelled⟩
    | path hop hvar =>
        rw [operands_of_no_op hop]
        refine ⟨?_, nofun⟩
        unfold misspelling?
        simp only [hop, hvar]
  · rintro ⟨hroot, hoperands⟩
    cases value with
    | null => exact .null
    | bool value => exact .bool value
    | num value => exact .num value
    | str value => exact .str value
    | arr items => exact .list hoperands
    | obj entries =>
        rcases cases_of_misspelling? hroot with ⟨op, hop, hargs⟩ | ⟨op, args, hop, hargs⟩ |
          ⟨text, hop, hvar⟩
        · exact .call hop hargs
        · rw [operands_of_args hop hargs] at hoperands
          exact .callWith hop hargs hoperands
        · exact .path hop hvar

theorem spelled_iff_nodes {value : Json} :
    Spelled value ↔
      ∀ address node, reading.Node value address node -> misspelling? node = none := by
  constructor
  · intro h address node hnode
    induction hnode with
    | root value => exact (spelled_iff.mp h).1
    | step hstep _ ih => exact ih ((spelled_iff.mp h).2 _ (mem_of_mem_itemSteps hstep))
  · induction value using reading.induction with
    | h value ih =>
        intro h
        apply spelled_iff.mpr
        constructor
        · exact h [] value (.root value)
        · intro operand hoperand
          rcases exists_step_of_mem hoperand with ⟨step, hstep⟩
          apply ih (step, operand) hstep
          exact fun address node hnode => h (step :: address) node (.step hstep hnode)

structure Readable (value : Json) : Prop where
  spelled : Spelled value
  shallow : ∀ address node, reading.Node value address node -> address.length ≤ maxNesting

theorem sound_iff {value : Json} : reading.Sound (reading.Node value) 0 ↔ Readable value := by
  have hnode (address : Address) (node : Json) :
      (∀ e, ¬ reading.Faulty (address.length + 0) node e) ↔
        misspelling? node = none ∧ address.length ≤ maxNesting := by
    change (∀ e, ¬ fault? address.length node = some e) ↔ _
    rw [← Option.eq_none_iff_forall_ne_some]
    unfold fault?
    split
    · rename_i hdeep
      exact iff_of_false nofun fun h => absurd hdeep (Nat.not_lt.mpr h.2)
    · rename_i hdeep
      exact (and_iff_left (Nat.not_lt.mp hdeep)).symm
  constructor
  · intro h
    constructor
    · apply spelled_iff_nodes.mpr
      exact fun address node hat => ((hnode address node).mp (h address node hat)).1
    · exact fun address node hat => ((hnode address node).mp (h address node hat)).2
  · rintro ⟨hspelled, hdepth⟩ address node hat
    have hfault := spelled_iff_nodes.mp hspelled address node hat
    exact (hnode address node).mpr ⟨hfault, hdepth address node hat⟩

end Expr
end Reckoner
