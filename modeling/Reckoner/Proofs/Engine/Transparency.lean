import Reckoner.Engine
import Reckoner.Proofs.Policy.Cache
import Reckoner.Proofs.Policy.Key

/-!
# Keeping policies changes no answer

Whatever has been done with an engine, it compiles and evaluates a document as if the
document were read for the first time.

Under the content of a document an engine never keeps anything but the rule set of a
document with that content.  Policies under handles, failures and invalidations leave
this as it is, and so does a builder that uses the engine before it gives its result.
-/

namespace Reckoner
namespace Engine

/-!
# Histories
-/

/-- Something that is done with an engine. A builder may use the engine before it succeeds or
fails. -/
inductive Operation where
  | compile (document : Json.Document)
  | evaluate (document : Json.Document) (facts : Json) (initial : Table Float)
  | build (name : String) (uses : List Operation) (result : Except EvalError RuleSet)
  | invalidate (key : PolicyKey)
  | clear

mutual

def perform (engine : Engine) : Operation -> Engine
  | .compile document => (engine.compile document.value).2
  | .evaluate document facts initial =>
      (engine.evaluateDocument document.value facts initial).2
  | .build name uses result =>
      (engine.compileUsing (.handle name) fun engine => (result, performAll engine uses)).2
  | .invalidate key => (engine.invalidate key).2
  | .clear => engine.clear

def performAll (engine : Engine) : List Operation -> Engine
  | [] => engine
  | operation :: rest => performAll (perform engine operation) rest

end

mutual

def Operation.documents : Operation -> List Json.Document
  | .compile document => [document]
  | .evaluate document _ _ => [document]
  | .build _ uses _ => documentsOf uses
  | .invalidate _ => []
  | .clear => []

def documentsOf : List Operation -> List Json.Document
  | [] => []
  | operation :: rest => operation.documents ++ documentsOf rest

end

/-!
# What an engine keeps
-/

/-- An engine whose policies under contents are the rule sets of documents. -/
structure Faithful (settings : Settings) (documents : List Json.Document) (engine : Engine) :
    Prop where
  settings : engine.settings = settings
  policies : ∀ digest policy, engine.policies.get? (.content digest) = some policy ->
    ∃ document ∈ documents, Digest.ofJson document.value = digest ∧
      RuleSet.ofJson document.value = .ok policy.rules

namespace Faithful

variable {settings : Settings} {documents : List Json.Document} {engine : Engine}

theorem fresh : Faithful settings documents { settings := settings } := by
  constructor
  · rfl
  · intro digest policy hpolicy
    cases hpolicy

theorem begun (h : Faithful settings documents engine) :
    Faithful settings documents engine.begun :=
  ⟨h.settings, h.policies⟩

theorem invalidate (h : Faithful settings documents engine) (key : PolicyKey) :
    Faithful settings documents (engine.invalidate key).2 := by
  constructor
  · exact h.settings
  · intro digest policy hpolicy
    change (engine.policies.invalidate key).2.get? (.content digest) = some policy at hpolicy
    rw [PolicyCache.get?_invalidate] at hpolicy
    split at hpolicy
    · cases hpolicy
    · exact h.policies digest policy hpolicy

theorem clear (h : Faithful settings documents engine) :
    Faithful settings documents engine.clear := by
  constructor
  · exact h.settings
  · intro digest policy hpolicy
    change engine.policies.clear.get? (.content digest) = some policy at hpolicy
    rw [PolicyCache.get?_clear] at hpolicy
    cases hpolicy

theorem keep_handle (h : Faithful settings documents engine) (name : String)
    (policy : Policy) : Faithful settings documents (engine.keep (.handle name) policy).2 := by
  constructor
  · exact h.settings
  · intro digest found hfound
    have hne : PolicyKey.handle name ≠ .content digest := by
      intro heq
      cases heq
    apply h.policies digest found
    rw [← PolicyCache.get?_getOrInsert_of_ne policy hne]
    exact hfound

theorem keep_document (h : Faithful settings documents engine) {document : Json.Document}
    (hdocument : document ∈ documents) {policy : Policy}
    (hrules : RuleSet.ofJson document.value = .ok policy.rules) :
    Faithful settings documents (engine.keep (.ofDocument document.value) policy).2 := by
  constructor
  · exact h.settings
  · intro digest found hfound
    change (engine.policies.getOrInsert (.ofDocument document.value) policy).2.get?
      (.content digest) = some found at hfound
    by_cases hsame : Digest.ofJson document.value = digest
    · subst hsame
      have hentered := PolicyCache.get?_getOrInsert engine.policies
        (.ofDocument document.value) policy
      have hvalue := Option.some.inj (hentered.symm.trans hfound)
      cases hkept : engine.policies.get? (.ofDocument document.value) with
      | some kept =>
          rw [PolicyCache.getOrInsert_of_some hkept] at hvalue
          subst hvalue
          exact h.policies _ kept hkept
      | none =>
          rw [PolicyCache.getOrInsert_of_none hkept] at hvalue
          subst hvalue
          exact ⟨document, hdocument, rfl, hrules⟩
    · have hne : PolicyKey.ofDocument document.value ≠ .content digest := by
        intro heq
        injection heq with hdigest
        exact hsame hdigest
      rw [PolicyCache.get?_getOrInsert_of_ne policy hne] at hfound
      exact h.policies digest found hfound

end Faithful

/-!
# Compiling
-/

section Compiling

variable {engine built : Engine} {key : PolicyKey}
  {build : Engine -> Except EvalError RuleSet × Engine}

theorem compileUsing_of_kept {kept : Policy} (h : engine.policies.get? key = some kept) :
    engine.compileUsing key build = (.ok kept, engine.begun) := by
  unfold compileUsing
  rw [h]

theorem compileUsing_of_error {e : EvalError} (h : engine.policies.get? key = none)
    (hbuild : build engine.begun = (.error e, built)) :
    engine.compileUsing key build = (.error e, built) := by
  unfold compileUsing
  rw [h]
  simp only [hbuild]

theorem compileUsing_of_ok {rules : RuleSet} (h : engine.policies.get? key = none)
    (hbuild : build engine.begun = (.ok rules, built)) :
    engine.compileUsing key build =
      (.ok (built.keep key { serial := engine.compilations, rules }).1,
        (built.keep key { serial := engine.compilations, rules }).2) := by
  unfold compileUsing
  rw [h]
  simp only [hbuild]

/-- Compiling is looking up and entering in the cache of the engine: the policy and the cache are
those of the cache itself. -/
theorem compileWith_eq_getOrCompile (engine : Engine) (key : PolicyKey)
    (build : Unit -> Except EvalError RuleSet) :
    let compiled := engine.policies.getOrCompile key fun _ =>
      (build ()).map fun rules => { serial := engine.compilations, rules }
    (engine.compileWith key build).1 = compiled.1 ∧
      (engine.compileWith key build).2.policies = compiled.2 := by
  unfold compileWith PolicyCache.getOrCompile PolicyCache.getOrCompileWith
  cases hkept : engine.policies.get? key with
  | some kept =>
      rw [compileUsing_of_kept hkept]
      exact ⟨rfl, rfl⟩
  | none =>
      cases hbuild : build () with
      | error e =>
          rw [compileUsing_of_error hkept rfl]
          exact ⟨rfl, rfl⟩
      | ok rules =>
          rw [compileUsing_of_ok hkept rfl]
          exact ⟨rfl, rfl⟩

theorem keep_fst_of_none (h : engine.policies.get? key = none) (policy : Policy) :
    (engine.keep key policy).1 = policy := by
  unfold keep
  rw [PolicyCache.getOrInsert_of_none h]

end Compiling

namespace Faithful

variable {settings : Settings} {documents : List Json.Document} {engine : Engine}

theorem build (h : Faithful settings documents engine) (name : String)
    {use : Engine -> Engine} (huse : ∀ engine, Faithful settings documents engine ->
      Faithful settings documents (use engine)) (result : Except EvalError RuleSet) :
    Faithful settings documents
      (engine.compileUsing (.handle name) fun engine => (result, use engine)).2 := by
  cases hkept : engine.policies.get? (.handle name) with
  | some kept =>
      rw [compileUsing_of_kept hkept]
      exact h.begun
  | none =>
      cases result with
      | error e =>
          have hcompile : engine.compileUsing (.handle name)
              (fun engine => (.error e, use engine)) = (.error e, use engine.begun) :=
            compileUsing_of_error hkept rfl
          rw [hcompile]
          exact huse engine.begun h.begun
      | ok rules =>
          have hcompile : engine.compileUsing (.handle name)
              (fun engine => (.ok rules, use engine)) = _ := compileUsing_of_ok hkept rfl
          rw [hcompile]
          exact (huse engine.begun h.begun).keep_handle name _

theorem compile (h : Faithful settings documents engine) {document : Json.Document}
    (hdocument : document ∈ documents) :
    Faithful settings documents (engine.compile document.value).2 := by
  unfold Engine.compile compileWith
  cases hkept : engine.policies.get? (.ofDocument document.value) with
  | some kept =>
      rw [compileUsing_of_kept hkept]
      exact h.begun
  | none =>
      cases hrules : RuleSet.ofJson document.value with
      | error e =>
          rw [compileUsing_of_error hkept rfl]
          exact h.begun
      | ok rules =>
          rw [compileUsing_of_ok hkept rfl]
          exact h.begun.keep_document hdocument hrules

end Faithful

mutual

theorem perform_faithful {settings : Settings} {documents : List Json.Document} :
    ∀ (operation : Operation) {engine : Engine}, operation.documents ⊆ documents ->
      Faithful settings documents engine ->
      Faithful settings documents (engine.perform operation)
  | .compile _, _, hused, h => h.compile (hused List.mem_cons_self)
  | .evaluate _ _ _, _, hused, h => h.compile (hused List.mem_cons_self)
  | .build name uses result, _, hused, h =>
      h.build name (fun _ hengine => performAll_faithful uses hused hengine) result
  | .invalidate key, _, _, h => h.invalidate key
  | .clear, _, _, h => h.clear

theorem performAll_faithful {settings : Settings} {documents : List Json.Document} :
    ∀ (history : List Operation) {engine : Engine}, documentsOf history ⊆ documents ->
      Faithful settings documents engine ->
      Faithful settings documents (engine.performAll history)
  | [], _, _, h => h
  | operation :: rest, _, hused, h => by
      rcases List.append_subset.mp hused with ⟨hhead, hrest⟩
      exact performAll_faithful rest hrest (perform_faithful operation hhead h)

end

theorem compile_eq_ofJson {settings : Settings} {documents : List Json.Document}
    {engine : Engine} (h : Faithful settings documents engine)
    (hseparated : Json.Document.Separated documents) {document : Json.Document}
    (hdocument : document ∈ documents) :
    (engine.compile document.value).1.map Policy.rules = RuleSet.ofJson document.value := by
  unfold compile compileWith
  cases hkept : engine.policies.get? (.ofDocument document.value) with
  | some kept =>
      rw [compileUsing_of_kept hkept]
      obtain ⟨other, hother, hdigest, hrules⟩ := h.policies _ kept hkept
      rw [← Json.Document.value_eq_of_digest hseparated hother hdocument hdigest, hrules]
      rfl
  | none =>
      cases hrules : RuleSet.ofJson document.value with
      | error e =>
          rw [compileUsing_of_error hkept rfl]
          rfl
      | ok rules =>
          have hbegun : engine.begun.policies.get? (.ofDocument document.value) = none := hkept
          rw [compileUsing_of_ok hkept rfl, keep_fst_of_none hbegun]
          rfl

/-!
# After any history
-/

/-- What a builder meets is again the engine after a history: it is what a builder that fails leaves
behind. -/
theorem begun_eq_perform (engine : Engine) {name : String}
    (h : engine.policies.get? (.handle name) = none) (e : EvalError) :
    engine.begun = engine.perform (.build name [] (.error e)) := by
  have hcompile : engine.compileUsing (.handle name)
      (fun engine => (.error e, engine.performAll [])) = (.error e, engine.begun) :=
    compileUsing_of_error h rfl
  show engine.begun = (engine.compileUsing (.handle name)
    (fun engine => (.error e, engine.performAll []))).2
  rw [hcompile]

theorem compile_evaluate_after_history (settings : Settings) (history : List Operation)
    (document : Json.Document)
    (hseparated : Json.Document.Separated (document :: documentsOf history)) :
    let engine := performAll { settings := settings } history
    (engine.compile document.value).1.map Policy.rules = RuleSet.ofJson document.value ∧
      ∀ (facts : Json) (initial : Table Float),
        (engine.evaluateDocument document.value facts initial).1 =
          (RuleSet.ofJson document.value).bind fun rules =>
            rules.evaluate settings.limits facts initial := by
  intro engine
  have hused : documentsOf history ⊆ document :: documentsOf history :=
    List.subset_cons_self document _
  have hfaithful : Faithful settings (document :: documentsOf history) engine :=
    performAll_faithful history hused Faithful.fresh
  have hcompile := compile_eq_ofJson hfaithful hseparated List.mem_cons_self
  constructor
  · exact hcompile
  · intro facts initial
    have hafter := (hfaithful.compile List.mem_cons_self).settings
    show ((engine.compile document.value).1.bind fun policy =>
      policy.rules.evaluate (engine.compile document.value).2.settings.limits facts initial) = _
    rw [← hcompile, hafter]
    cases (engine.compile document.value).1 with
    | error e => rfl
    | ok policy => rfl

/-- A document that fails and one that does not, a builder that uses the engine and is not asked
again, and an invalidation in between. -/
theorem compile_evaluate_after_history_mixed :
    let broken : Json.Document := ⟨.obj [("id", .str "stems")], rfl⟩
    let stems : Json.Document :=
      ⟨.obj [("id", .str "stems"), ("rules", .arr [.obj [("id", .str "heat")]]),
        ("version", .str "1")], by decide +kernel⟩
    let facts : Json := .obj [("heat", .num (.int 2))]
    let history : List Operation := [
      .compile broken,
      .compile stems,
      .build "stems" [.evaluate stems facts [], .invalidate (.ofDocument stems.value)]
        (.ok { id := "branches", version := "1", rules := [] }),
      .evaluate stems facts [],
      .build "stems" [.clear] (.ok { id := "stems", version := "2", rules := [] })]
    Json.Document.Separated (stems :: documentsOf history) ∧
      ((performAll {} history).compile stems.value).1.map Policy.rules =
        RuleSet.ofJson stems.value ∧
      ((performAll {} history).evaluateDocument stems.value facts []).1 =
        (RuleSet.ofJson stems.value).bind fun rules => rules.evaluate {} facts [] := by
  intro broken stems facts history
  have hseparated : Json.Document.Separated (stems :: documentsOf history) := by decide +kernel
  have hafter := compile_evaluate_after_history {} history stems hseparated
  exact ⟨hseparated, hafter.1, hafter.2 facts []⟩

end Engine
end Reckoner
