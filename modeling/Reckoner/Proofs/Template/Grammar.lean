import Reckoner.Proofs.Expr.Grammar
import Reckoner.Proofs.Json.Document
import Reckoner.Proofs.Template.Coding

/-!
# The grammar of templates

A template has faults of two kinds: a node that is too deep, and an expression in it that
cannot be read.  The expression is a node of the template, and its own nodes are
not: their depth counts from where it starts.
-/

namespace Reckoner
namespace Template

open Json

/-!
# Nodes
-/

/-- The values that are read as templates directly below a value. Below an expression there are
none. -/
def parts : Json -> List (Step × Json)
  | .arr items => itemSteps items
  | .obj entries => if Expr.isMarked entries then [] else entrySteps entries
  | _ => []

/-- The faults of a node at a depth. The first fault of an expression is its fault as a node. -/
inductive Faulty (depth : Nat) : Json -> EvalError -> Prop where
  | tooDeep {value : Json} : Expr.maxNesting < depth ->
      Faulty depth value (.tooDeep Expr.maxNesting)
  | expr {entries : List (String × Json)} {e : EvalError} : depth ≤ Expr.maxNesting ->
      Expr.isMarked entries = true -> Expr.reading.FirstFault (.obj entries) e ->
      Faulty depth (.obj entries) e

theorem sizeOf_lt_of_mem_parts {value : Json} {entry : Step × Json} (h : entry ∈ parts value) :
    sizeOf entry.2 < sizeOf value := by
  cases value with
  | arr items => exact sizeOf_lt_arr (mem_of_mem_itemSteps h)
  | obj entries =>
      unfold parts at h
      dsimp only at h
      split at h
      · cases h
      · rcases mem_of_mem_entrySteps h with ⟨name, hmem⟩
        exact sizeOf_lt_obj hmem
  | null | bool _ | num _ | str _ => cases h

def reading : Reading where
  below := parts
  Faulty depth value e := Faulty depth value e
  smaller := fun _ _ => sizeOf_lt_of_mem_parts

theorem below_of_marked {entries : List (String × Json)} (h : Expr.isMarked entries = true) :
    reading.below (.obj entries) = [] :=
  if_pos h

theorem below_of_unmarked {entries : List (String × Json)} (h : Expr.isMarked entries = false) :
    reading.below (.obj entries) = entrySteps entries := by
  change (if Expr.isMarked entries then [] else entrySteps entries) = _
  rw [h]
  rfl

/-- Data has no fault of its own unless it is too deep. -/
theorem not_faulty_of_unmarked {depth : Nat} (hdepth : depth ≤ Expr.maxNesting) {value : Json}
    (h : ∀ entries, value = .obj entries -> Expr.isMarked entries = false) (e : EvalError) :
    ¬ reading.Faulty depth value e := by
  intro hfault
  cases hfault with
  | tooDeep hdeep => exact Nat.not_lt.mpr hdepth hdeep
  | expr _ hmarked _ =>
      have hunmarked := h _ rfl
      rw [hmarked] at hunmarked
      cases hunmarked

/-!
# The parser, node by node
-/

theorem parseItems_eq_mapM (depth : Nat) (items : List Json) :
    parseItems depth items = items.mapM (parseAt depth) := by
  induction items with
  | nil =>
      rw [parseItems]
      rfl
  | cons item rest ih =>
      rw [parseItems_cons, ih, List.mapM_cons]
      rfl

theorem parseEntries_eq_mapM (depth : Nat) (entries : List (String × Json)) :
    parseEntries depth entries =
      entries.mapM fun entry => (parseAt depth entry.2).map fun t => (entry.1, t) := by
  induction entries with
  | nil =>
      rw [parseEntries]
      rfl
  | cons entry rest ih =>
      rcases entry with ⟨name, value⟩
      rw [parseEntries_cons, ih, List.mapM_cons]
      dsimp only
      cases parseAt depth value with
      | error e => rfl
      | ok t => rfl

theorem reads_expr {depth : Nat} (hdepth : depth ≤ Expr.maxNesting)
    {entries : List (String × Json)} (hmarked : Expr.isMarked entries = true) :
    reading.Reads (reading.Node (.obj entries)) depth (Expr.ofJson (.obj entries)) := by
  have hreads := Expr.reads_parseAt (.obj entries) 0
  have hfaulty (e : EvalError) :
      reading.Faulty depth (.obj entries) e ↔ Expr.ofJson (.obj entries) = .error e := by
    apply Iff.trans _ (hreads.error e).symm
    constructor
    · intro h
      cases h with
      | tooDeep hdeep => exact absurd hdeep (Nat.not_lt.mpr hdepth)
      | expr _ _ hfirst => exact hfirst
    · exact .expr hdepth hmarked
  cases hrun : Expr.ofJson (.obj entries) with
  | error e =>
      apply Reading.reads_of_fault ((hfaulty e).mpr hrun)
      intro e' hother
      cases hrun.symm.trans ((hfaulty e').mp hother)
      rfl
  | ok e =>
      apply Reading.reads_of_below
      · intro e' hother
        cases hrun.symm.trans ((hfaulty e').mp hother)
      · rw [below_of_marked hmarked]
        exact Reading.reads_nil e

theorem reads_parseAt (value : Json) (hvalue : value.isWellFormed = true) (depth : Nat) :
    reading.Reads (reading.Node value) depth (parseAt depth value) := by
  induction value using reading.induction generalizing depth with
  | h value ih =>
      by_cases hdeep : Expr.maxNesting < depth
      · unfold parseAt
        rw [if_pos hdeep]
        apply Reading.reads_of_fault (Faulty.tooDeep hdeep)
        intro e' hother
        cases hother with
        | tooDeep _ => rfl
        | expr hdepth _ _ => exact absurd hdeep (Nat.not_lt.mpr hdepth)
      have hdepth : depth ≤ Expr.maxNesting := Nat.not_lt.mp hdeep
      cases value with
      | null | bool _ | num _ | str _ =>
          rw [parseAt_scalar hdepth rfl]
          apply Reading.reads_of_below
          · apply not_faulty_of_unmarked hdepth
            intro entries heq
            cases heq
          · exact Reading.reads_nil _
      | arr items =>
          rw [parseAt_arr hdepth, parseItems_eq_mapM]
          apply Reading.reads_of_below
          · apply not_faulty_of_unmarked hdepth
            intro entries heq
            cases heq
          apply Reading.Reads.map
          apply Reading.reads_items
          intro entry hentry
          have hitem := isWellFormed_of_mem hvalue (mem_of_mem_itemSteps hentry)
          exact ih entry hentry hitem (depth + 1)
      | obj entries =>
          cases hmarked : Expr.isMarked entries with
          | true =>
              rw [parseAt_marked hdepth hmarked]
              exact (reads_expr hdepth hmarked).map Template.expr
          | false =>
              rcases Bool.and_eq_true_iff.mp hvalue with ⟨hsorted, hentries⟩
              rw [parseAt_unmarked hdepth hmarked, parseEntries_eq_mapM]
              apply Reading.reads_of_below
              · apply not_faulty_of_unmarked hdepth
                intro others heq
                cases heq
                exact hmarked
              rw [below_of_unmarked hmarked] at ih ⊢
              -- the entries of a document are sorted, so they are read in the order of their names
              apply Reading.Reads.map
              apply Reading.reads_mapM (pairwise_entrySteps (of_decide_eq_true hsorted))
              intro entry hentry
              apply Reading.Reads.map
              have hentry' : (Step.entry entry.1, entry.2) ∈ entrySteps entries :=
                List.mem_map_of_mem hentry
              exact ih _ hentry' (isWellFormed_of_mem_entries hentries hentry) (depth + 1)

/-!
# The grammar
-/

/-- The values that are templates: data that is nested no deeper than allowed, with expressions in
it. -/
structure Readable (value : Json) : Prop where
  shallow : ∀ address node, reading.Node value address node -> address.length ≤ Expr.maxNesting
  exprs : ∀ address entries, reading.Node value address (.obj entries) ->
    Expr.isMarked entries = true -> Expr.Readable (.obj entries)

theorem sound_iff {value : Json} : reading.Sound (reading.Node value) 0 ↔ Readable value := by
  have hexpr (entries : List (String × Json)) :
      Expr.Readable (.obj entries) ↔ ∀ e, ¬ Expr.reading.FirstFault (.obj entries) e :=
    Expr.sound_iff.symm.trans (Expr.reads_parseAt (.obj entries) 0).sound_iff
  constructor
  · intro h
    have hshallow (address : Address) (node : Json) (hnode : reading.Node value address node) :
        address.length ≤ Expr.maxNesting := by
      by_contra hdeep
      exact h address node hnode _ (.tooDeep (Nat.not_le.mp hdeep))
    refine ⟨hshallow, ?_⟩
    intro address entries hnode hmarked
    apply (hexpr entries).mpr
    intro e hfirst
    exact h address _ hnode e (.expr (hshallow address _ hnode) hmarked hfirst)
  · intro h address node hnode e hfault
    cases hfault with
    | tooDeep hdeep => exact Nat.not_lt.mpr (h.shallow address node hnode) hdeep
    | expr _ hmarked hfirst => exact (hexpr _).mp (h.exprs address _ hnode hmarked) e hfirst

/-- Expressions and templates are read exactly from the values that their grammars describe, and
from all others the first fault results. -/
theorem ofJson_exact (document : Document) :
    ((∃ e, Expr.ofJson document.value = .ok e) ↔ Expr.Readable document.value) ∧
      (∀ error, Expr.ofJson document.value = .error error ↔
        Expr.reading.FirstFault document.value error) ∧
      ((∃ t, Template.ofJson document.value = .ok t) ↔ Template.Readable document.value) ∧
      ∀ error, Template.ofJson document.value = .error error ↔
        Template.reading.FirstFault document.value error := by
  have hexpr := Expr.reads_parseAt document.value 0
  have htemplate := reads_parseAt document.value document.wellFormed 0
  refine ⟨?_, hexpr.error, ?_, htemplate.error⟩
  · rw [← Expr.sound_iff]
    exact hexpr.ok
  · rw [← sound_iff]
    exact htemplate.ok

/-- The name of an operator is a fault before anything in its arguments is. -/
example : Template.ofJson (.arr [.obj [("a", .null)],
    .obj [("args", .arr [.obj [("op", .null)]]), ("op", .str "no")]]) =
      .error (.unknownOperator "no") := by
  rfl

end Template
end Reckoner
