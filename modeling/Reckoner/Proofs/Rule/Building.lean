import Reckoner.Proofs.Rule.RoundTrip
import Reckoner.Rule.Evaluation

/-!
# Rules that are built

A rule that is built step by step need not be one that a document holds.  Null in the
place of a gate, of an assertion or of an emission is a literal there, and in a
document it stands for a missing one; and an expression in a template may hold a zero
with a sign, which is written without it.  A rule set without any of these is read
back as it is, so it does what it did.
-/

namespace Reckoner

/-- Expressions whose numbers are written as they are, nested no deeper than they are read. -/
structure Expr.Plain (e : Expr) : Prop where
  finite : ∀ x ∈ e.numbers, x.isFinite = true
  unsigned : ∀ x ∈ e.numbers, x ≠ -0.0
  nesting : e.nesting ≤ maxNesting

theorem Expr.Plain.fitsAt {e : Expr} (h : e.Plain) : e.FitsAt 0 :=
  ⟨h.finite, by rw [Nat.zero_add]; exact h.nesting⟩

namespace Rule

inductive Built : Rule -> Prop where
  | named (id : String) : Built (named id)
  | gatedBy {r : Rule} {e : Expr} : Built r -> e.Plain -> Built (r.gatedBy e)
  | scoring {r : Rule} (name : String) {e : Expr} : Built r -> e.Plain -> Built (r.scoring name e)
  | emitting {r : Rule} (document : Json.Document) {t : Template} :
      Built r -> Template.ofJson document.value = .ok t -> Built (r.emitting t)
  | asserting {r : Rule} {e : Expr} : Built r -> e.Plain -> Built (r.asserting e)
  | explained {r : Rule} (text : String) : Built r -> Built (r.explained text)
  | tagged {r : Rule} (tag : String) : Built r -> Built (r.tagged tag)

structure Sound (r : Rule) : Prop where
  gate : ∀ e, r.gate? = some e -> e.Plain
  scores : ∀ scores, r.scores? = some scores ->
    scores.Sorted ∧ ∀ entry ∈ scores, entry.2.Plain
  emission : ∀ t, r.emission? = some t ->
    ∃ document : Json.Document, Template.ofJson document.value = .ok t
  assertion : ∀ e, r.assertion? = some e -> e.Plain

/-- Rules without null where a document takes it for a missing field, and without signs of zeros
in the expressions of the emission. -/
structure Representable (r : Rule) : Prop where
  gate : r.gate? ≠ some (.literal .null)
  emission : r.emission? ≠ some (.literal .null)
  assertion : r.assertion? ≠ some (.literal .null)
  unsigned : ∀ t, r.emission? = some t -> ∀ x ∈ t.numbers, x ≠ -0.0

theorem Sound.named (id : String) : (named id).Sound := by
  constructor
  all_goals
    intro _ hmissing
    cases hmissing

theorem Sound.scoring {r : Rule} (h : r.Sound) (name : String) {e : Expr} (he : e.Plain) :
    (r.scoring name e).Sound := by
  refine ⟨h.gate, ?_, h.emission, h.assertion⟩
  rintro _ ⟨⟩
  have hbefore : (r.scores?.getD []).Sorted ∧ ∀ entry ∈ r.scores?.getD [], entry.2.Plain := by
    cases hscores : r.scores? with
    | none => exact ⟨List.Pairwise.nil, fun entry hentry => absurd hentry List.not_mem_nil⟩
    | some scores => exact h.scores scores hscores
  refine ⟨hbefore.1.insert name e, ?_⟩
  intro entry hentry
  rcases Table.mem_insert hentry with rfl | hmem
  · exact he
  · exact hbefore.2 entry hmem

theorem Built.sound {r : Rule} (h : r.Built) : r.Sound := by
  induction h with
  | named id => exact .named id
  | gatedBy _ he ih =>
      refine ⟨?_, ih.scores, ih.emission, ih.assertion⟩
      rintro _ ⟨⟩
      exact he
  | scoring name _ he ih => exact ih.scoring name he
  | emitting document _ ht ih =>
      refine ⟨ih.gate, ih.scores, ?_, ih.assertion⟩
      rintro _ ⟨⟩
      exact ⟨document, ht⟩
  | asserting _ he ih =>
      refine ⟨ih.gate, ih.scores, ih.emission, ?_⟩
      rintro _ ⟨⟩
      exact he
  | explained _ _ ih => exact ⟨ih.gate, ih.scores, ih.emission, ih.assertion⟩
  | tagged _ _ ih => exact ⟨ih.gate, ih.scores, ih.emission, ih.assertion⟩

namespace Sound

variable {r : Rule}

theorem readsBack (h : r.Sound) (hr : r.Representable) : r.ReadsBack := by
  constructor
  · intro e he
    refine ⟨(h.gate e he).fitsAt, ?_⟩
    rintro rfl
    exact hr.gate he
  · intro scores hscores
    obtain ⟨hsorted, hentries⟩ := h.scores scores hscores
    exact ⟨hsorted, fun entry hentry => (hentries entry hentry).fitsAt⟩
  · intro t ht
    obtain ⟨document, hread⟩ := h.emission t ht
    refine ⟨Template.readsBackAt_of_parseAt document.value document.wellFormed hread, ?_⟩
    intro hnull
    rw [(Template.eq_null_of_toJson hread hnull).2] at ht
    exact hr.emission ht
  · intro e he
    refine ⟨(h.assertion e he).fitsAt, ?_⟩
    rintro rfl
    exact hr.assertion he

theorem unsigned_eq (h : r.Sound) (hr : r.Representable) : r.unsigned = r := by
  have hexpr {e? : Option Expr} (he : ∀ e, e? = some e -> e.Plain) :
      e?.map Expr.unsigned = e? := by
    cases e? with
    | none => rfl
    | some e => exact congrArg some (Expr.unsigned_of_numbers e (he e rfl).unsigned)
  have hscores : r.scores?.map (Table.mapValues Expr.unsigned) = r.scores? := by
    cases hscores : r.scores? with
    | none => rfl
    | some scores =>
        have hsame : ∀ entry ∈ scores, (entry.1, entry.2.unsigned) = entry := by
          intro entry hentry
          rw [Expr.unsigned_of_numbers _ ((h.scores scores hscores).2 entry hentry).unsigned]
        exact congrArg some ((List.map_congr_left hsame).trans (List.map_id' scores))
  have hemission : r.emission?.map Template.unsigned = r.emission? := by
    cases hemission : r.emission? with
    | none => rfl
    | some t => exact congrArg some (Template.unsigned_of_numbers t (hr.unsigned t hemission))
  unfold unsigned
  rw [hexpr h.gate, hscores, hemission, hexpr h.assertion]

end Sound

end Rule

namespace RuleSet

theorem evaluate_ofJson_toJson {s : RuleSet} (hbuilt : ∀ r ∈ s.rules, r.Built)
    (hrepresentable : ∀ r ∈ s.rules, r.Representable) :
    ∃ s', ofJson s.toJson.sorted = .ok s' ∧
      ∀ limits facts initial,
        s'.evaluate limits facts initial = s.evaluate limits facts initial := by
  have hsame : s.unsigned = s := by
    have hrules : s.rules.map Rule.unsigned = s.rules := by
      have hrule : ∀ r ∈ s.rules, r.unsigned = r :=
        fun r hr => (hbuilt r hr).sound.unsigned_eq (hrepresentable r hr)
      exact (List.map_congr_left hrule).trans (List.map_id' s.rules)
    unfold unsigned
    rw [hrules]
  refine ⟨s.unsigned, ?_, fun limits facts initial => by rw [hsame]⟩
  exact ofJson_sorted_toJson fun r hr => (hbuilt r hr).sound.readsBack (hrepresentable r hr)

/-- A gate, a score and an emission with an expression in it. -/
theorem evaluate_ofJson_toJson_gated :
    let gate : Expr := .call .gt [.var "x", .number 0.0]
    let template : Template := .map [("kind", .literal (.str "wood")), ("x", .expr (.var "x"))]
    let r : Rule :=
      ((((Rule.named "r").gatedBy gate).scoring "wood" (.number 1.5)).emitting template).tagged "t"
    let s : RuleSet := { id := "s", version := "1", rules := [r] }
    (∀ r ∈ s.rules, r.Built) ∧ (∀ r ∈ s.rules, r.Representable) ∧
      ∃ s', ofJson s.toJson.sorted = .ok s' ∧
        ∀ limits facts initial,
          s'.evaluate limits facts initial = s.evaluate limits facts initial := by
  intro gate template r s
  have hgate : gate.Plain := ⟨by decide +kernel, by decide +kernel, by decide⟩
  have hscore : (Expr.number 1.5).Plain := ⟨by decide +kernel, by decide +kernel, by decide⟩
  let document : Json.Document :=
    { value := .obj [("kind", .str "wood"), ("x", .obj [("var", .str "x")])]
      wellFormed := by decide +kernel }
  have htemplate : Template.ofJson document.value = .ok template := rfl
  have hbuilt : ∀ r ∈ s.rules, r.Built := by
    intro other hother
    rw [List.mem_singleton.mp hother]
    exact (((Rule.Built.named "r").gatedBy hgate |>.scoring "wood" hscore).emitting document
      htemplate).tagged "t"
  have hrepresentable : ∀ r ∈ s.rules, r.Representable := by
    intro other hother
    rw [List.mem_singleton.mp hother]
    constructor
    · exact fun heq => Expr.noConfusion (Option.some.inj heq)
    · exact fun heq => Template.noConfusion (Option.some.inj heq)
    · exact fun heq => nomatch heq
    · rintro _ ⟨⟩ x hx
      exact absurd hx List.not_mem_nil
  exact ⟨hbuilt, hrepresentable, evaluate_ofJson_toJson hbuilt hrepresentable⟩

/-!
# What is lost
-/

def only (r : Rule) : RuleSet :=
  { id := "s", version := "1", rules := [r] }

def summary (result : Except EvalError Outcome) : Option (List String × Nat) :=
  result.toOption.map fun o => (o.emits.map Json.text, o.failures.length)

/-- A built rule that is read back as another one, which does something else. -/
structure Altered (r back : Rule) : Prop where
  built : r.Built
  read : ofJson (only r).toJson.sorted = .ok (only back)
  differs : (only back).evaluate {} (.obj []) [] ≠ (only r).evaluate {} (.obj []) []

/-- A null gate, a null assertion and a null emission are lost, and a quotient by a signed zero
becomes infinite on the other side. -/
theorem altered_null_gate_assertion_emission_zero :
    let r : Rule := .named "r"
    let text : Template := .literal (.str "t")
    let below (zero : Float) : Template :=
      .expr (.call .lt [.call .div [.number 1.0, .number zero], .number 0.0])
    Altered ((r.gatedBy (.literal .null)).emitting text) (r.emitting text) ∧
      Altered (r.asserting (.literal .null)) r ∧
      Altered (r.emitting (.literal .null)) r ∧
      Altered (r.emitting (below (-0.0))) (r.emitting (below 0.0)) := by
  have hnull : (Expr.literal .null).Plain := ⟨by decide +kernel, by decide +kernel, by decide⟩
  have hr : (Rule.named "r").Built := .named "r"
  let nothing : Json.Document := { value := .null, wellFormed := rfl }
  let word : Json.Document := { value := .str "t", wellFormed := rfl }
  let quotient : Json.Document :=
    { value := .obj [("args", .arr [
          .obj [("args", .arr [.num (.int 1), .num (.double (-0.0))]), ("op", .str "div")],
          .num (.int 0)]), ("op", .str "lt")]
      wellFormed := by decide +kernel }
  refine ⟨⟨(hr.gatedBy hnull).emitting word rfl, rfl, ?_⟩, ⟨hr.asserting hnull, rfl, ?_⟩,
    ⟨hr.emitting nothing rfl, rfl, ?_⟩, ⟨hr.emitting quotient rfl, rfl, ?_⟩⟩
  all_goals exact ne_of_apply_ne summary (by decide +kernel)

end RuleSet
end Reckoner
