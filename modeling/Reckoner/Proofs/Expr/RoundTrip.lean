import Reckoner.Expr.Eval
import Reckoner.Proofs.Expr.Coding
import Reckoner.Proofs.Json.Document

/-!
# Expressions that go through JSON

Every expression can be written, also one that no document holds.  What is read for it
is known exactly, so it is known when it is equal to the expression, and when it has
the same value.  The two are not the same: a zero is equal to a negative zero, but a
quotient by the one is not equal to a quotient by the other.
-/

namespace Reckoner
namespace Expr

/-!
# Equality
-/

theorem ofJson_toJson_eq (e : Expr) :
    ofJson e.toJson =
      if e.nesting ≤ maxNesting then .ok e.reread else .error (.tooDeep maxNesting) := by
  have h := parseAt_toJson_eq e 0
  rwa [Nat.zero_add] at h

theorem eq_reread_of_ofJson {e back : Expr} (h : ofJson e.toJson = .ok back) :
    e.nesting ≤ maxNesting ∧ back = e.reread := by
  rw [ofJson_toJson_eq] at h
  split at h
  · rename_i hnesting
    cases h
    exact ⟨hnesting, rfl⟩
  · cases h

/-- An expression is read back as an equal one just if its numbers are finite and it is nested no
deeper than allowed. However it is read back, the same is written for it again. -/
theorem ofJson_toJson_iff (e : Expr) :
    ((∃ back, ofJson e.toJson = .ok back ∧ e.same back = true) ↔
        (∀ x ∈ e.numbers, x.isFinite = true) ∧ e.nesting ≤ maxNesting) ∧
      (maxNesting < e.nesting -> ofJson e.toJson = .error (.tooDeep maxNesting)) ∧
      ∀ back, ofJson e.toJson = .ok back -> back.toJson = e.toJson := by
  refine ⟨?_, ?_, ?_⟩
  · constructor
    · rintro ⟨back, hback, hsame⟩
      rcases eq_reread_of_ofJson hback with ⟨hnesting, rfl⟩
      exact ⟨(same_reread e).mp hsame, hnesting⟩
    · rintro ⟨hfinite, hnesting⟩
      refine ⟨e.reread, ?_, (same_reread e).mpr hfinite⟩
      rw [ofJson_toJson_eq, if_pos hnesting]
  · intro hdeep
    rw [ofJson_toJson_eq, if_neg (Nat.not_le.mpr hdeep)]
  · intro back hback
    rcases eq_reread_of_ofJson hback with ⟨_, rfl⟩
    exact toJson_reread e

def wrapped : Nat -> Expr
  | 0 => .list []
  | n + 1 => .list [wrapped n]

/-- An infinite literal is read back as null, which is written in the same way. One list more than
allowed is refused. -/
theorem ofJson_toJson_infinite_and_wrapped :
    let e : Expr := .call .add [.number (1.0 / 0.0)]
    let back : Expr := .call .add [.literal .null]
    (ofJson e.toJson = .ok back ∧ back.toJson = e.toJson ∧ e.same back = false) ∧
      maxNesting < (wrapped 257).nesting ∧
      ofJson (wrapped 257).toJson = .error (.tooDeep maxNesting) := by
  intro e back
  have hread : ofJson e.toJson = .ok back := by
    rw [ofJson_toJson_eq]
    rfl
  have hinfinite : e.same back = false := by
    apply Bool.eq_false_iff.mpr
    intro hsame
    have hfinite := ((ofJson_toJson_iff e).1.mp ⟨back, hread, hsame⟩).1 _ List.mem_cons_self
    revert hfinite
    decide +kernel
  have hdeep : maxNesting < (wrapped 257).nesting := by decide +kernel
  exact ⟨⟨hread, (ofJson_toJson_iff e).2.2 back hread, hinfinite⟩, hdeep,
    (ofJson_toJson_iff (wrapped 257)).2.1 hdeep⟩

/-!
# Values
-/

/-- What is read back for an expression of a document has the value of that expression with its
zeros unsigned, under every limit and over all facts. -/
theorem eval_ofJson_toJson {document : Json.Document} {e : Expr}
    (h : ofJson document.value = .ok e) :
    ∃ back, ofJson e.toJson = .ok back ∧
      (∀ limit facts, back.eval limit facts = e.unsigned.eval limit facts) ∧
      ((∀ x ∈ e.numbers, x ≠ -0.0) ->
        ∀ limit facts, back.eval limit facts = e.eval limit facts) := by
  have hfits := fitsAt_of_parseAt document.value document.wellFormed h
  refine ⟨e.unsigned, parseAt_toJson e hfits, fun _ _ => rfl, ?_⟩
  intro hsigns limit facts
  rw [unsigned_of_numbers e hsigns]

/-- A whole number is written as an integer. -/
theorem eval_ofJson_toJson_whole :
    let document : Json.Document :=
      { value := .obj [("args", .arr [.obj [("var", .str "x")], .num (.double 2.0)]),
          ("op", .str "lt")]
        wellFormed := by decide +kernel }
    let e : Expr := .call .lt [.var "x", .number 2.0]
    ofJson document.value = .ok e ∧ (∀ x ∈ e.numbers, x ≠ -0.0) ∧
      ∃ back, ofJson e.toJson = .ok back ∧
        ∀ limit facts, back.eval limit facts = e.eval limit facts := by
  intro document e
  have hread : ofJson document.value = .ok e := rfl
  have hsigns : ∀ x ∈ e.numbers, x ≠ -0.0 := by
    intro x hx
    rw [List.mem_singleton.mp hx]
    decide +kernel
  rcases eval_ofJson_toJson hread with ⟨back, hback, _, hsame⟩
  exact ⟨hread, hsigns, back, hback, hsame hsigns⟩

/-- A quotient by a negative zero is infinite on the other side after it is read back. -/
theorem eval_ofJson_toJson_negative_zero :
    let document : Json.Document :=
      { value := .obj [("args", .arr [.num (.int 1), .num (.double (-0.0))]), ("op", .str "div")]
        wellFormed := by decide +kernel }
    ∃ e back, ofJson document.value = .ok e ∧ ofJson e.toJson = .ok back ∧
      e.eval 64 (.obj []) = .ok (.num (1.0 / -0.0)) ∧
      back.eval 64 (.obj []) = .ok (.num (1.0 / 0.0)) ∧
      back.eval 64 (.obj []) ≠ e.eval 64 (.obj []) := by
  intro document
  let quotient (zero : Float) : Expr := .call .div [.number 1.0, .number zero]
  have hvalue (zero : Float) : (quotient zero).eval 64 (.obj []) = .ok (.num (1.0 / zero)) := by
    rfl
  have hread : ofJson document.value = .ok (quotient (-0.0)) := by
    rfl
  have hback : ofJson (quotient (-0.0)).toJson = .ok (quotient 0.0) := by
    rfl
  have hne : (1.0 / 0.0 : Float) ≠ 1.0 / -0.0 := by decide +kernel
  refine ⟨quotient (-0.0), quotient 0.0, hread, hback, hvalue (-0.0), hvalue 0.0, ?_⟩
  rw [hvalue, hvalue]
  intro heq
  injection heq with hfact
  injection hfact with hquotient
  exact hne hquotient

end Expr
end Reckoner
