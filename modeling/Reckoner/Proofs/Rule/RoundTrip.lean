import Reckoner.Digest.Basic
import Reckoner.Proofs.Json.Record
import Reckoner.Proofs.Template.Coding
import Reckoner.Rule.Basic

/-!
# Rule sets written and read back

A rule set that has been read is read back from its value, only that zeros lose their
signs.  A field that may be missing is not shown when it is, and null would stand for
a missing one, so a rule that is read back holds no expression and no template that is
written as null in such a field.  In the table of scores null is a literal like others.
-/

namespace Reckoner

/-!
# Equality
-/

def sameOption {α : Type} (same : α -> α -> Bool) : Option α -> Option α -> Bool
  | none, none => true
  | some a, some b => same a b
  | _, _ => false

def Table.sameBy {α : Type} (same : α -> α -> Bool) (a b : Table α) : Bool :=
  List.isEqv a b fun x y => x.1 == y.1 && same x.2 y.2

theorem sameOption_map {α : Type} {same : α -> α -> Bool} {f : α -> α} {a? : Option α}
    (h : ∀ a, a? = some a -> same a (f a) = true) : sameOption same a? (a?.map f) = true := by
  cases a? with
  | none => rfl
  | some a => exact h a rfl

theorem isEqv_map {α : Type} {same : α -> α -> Bool} {f : α -> α} {as : List α}
    (h : ∀ a ∈ as, same a (f a) = true) : as.isEqv (as.map f) same = true := by
  induction as with
  | nil => rfl
  | cons a rest ih =>
      have hrest := ih fun other hother => h other (List.mem_cons_of_mem a hother)
      exact Bool.and_eq_true_iff.mpr ⟨h a List.mem_cons_self, hrest⟩

theorem Table.sameBy_mapValues {α : Type} {same : α -> α -> Bool} {f : α -> α} {table : Table α}
    (h : ∀ entry ∈ table, same entry.2 (f entry.2) = true) :
    table.sameBy same (table.mapValues f) = true := by
  apply isEqv_map
  intro entry hentry
  exact Bool.and_eq_true_iff.mpr ⟨beq_self_eq_true entry.1, h entry hentry⟩

namespace Rule

def unsigned (r : Rule) : Rule :=
  { r with
    gate? := r.gate?.map Expr.unsigned
    scores? := r.scores?.map (Table.mapValues Expr.unsigned)
    emission? := r.emission?.map Template.unsigned
    assertion? := r.assertion?.map Expr.unsigned }

def same (a b : Rule) : Bool :=
  a.id == b.id && sameOption Expr.same a.gate? b.gate? &&
    sameOption (Table.sameBy Expr.same) a.scores? b.scores? &&
    sameOption Template.same a.emission? b.emission? &&
    sameOption Expr.same a.assertion? b.assertion? &&
    a.explanation? == b.explanation? && a.tags == b.tags

/-- Rules that are read back from what is written for them. -/
structure ReadsBack (r : Rule) : Prop where
  gate : ∀ e, r.gate? = some e -> e.FitsAt 0 ∧ e ≠ .literal .null
  scores : ∀ scores, r.scores? = some scores ->
    scores.Sorted ∧ ∀ entry ∈ scores, entry.2.FitsAt 0
  emission : ∀ t, r.emission? = some t -> t.ReadsBackAt 0 ∧ t.toJson ≠ .null
  assertion : ∀ e, r.assertion? = some e -> e.FitsAt 0 ∧ e ≠ .literal .null

/-!
# Writing and reading back
-/

open Json Decoder

def order : List (Json.Field Rule) :=
  ([4, 3, 5, 0, 2, 6, 1] : List (Fin 7)).map record.fields.get

theorem ordered : record.Ordered order := by
  apply Record.Ordered.of_indices
  · show (List.finRange 7).Perm [4, 3, 5, 0, 2, 6, 1]
    decide
  · show ["assert", "emit", "explain", "id", "score", "tags", "when"].Pairwise (· < ·)
    decide
  · intro f hf hrequired shown
    simp only [record, List.mem_cons, List.not_mem_nil, or_false] at hf
    rcases hf with rfl | rfl | rfl | rfl | rfl | rfl | rfl
    · rfl
    all_goals cases hrequired

namespace ReadsBack

variable {r : Rule}

theorem copy_order (h : r.ReadsBack) : Record.copy order r record.blank = .ok r.unsigned := by
  have hexpr {e : Expr} (he : e.FitsAt 0 ∧ e ≠ .literal .null) :
      e.toJson.sorted ≠ .null ∧
        fromValue Expr.decoder e.toJson.sorted = .ok e.unsigned := by
    rw [Expr.sorted_toJson he.1]
    exact ⟨Expr.toJson_ne_null he.1 he.2, Expr.fromValue_toJson he.1⟩
  have hscores (scores : Table Expr) (hscores : r.scores? = some scores) :
      (Json.obj (scores.mapValues Expr.toJson)).sorted ≠ .null ∧
        fromValue (Decoder.table Expr.decoder) (Json.obj (scores.mapValues Expr.toJson)).sorted =
          .ok (scores.mapValues Expr.unsigned) := by
    obtain ⟨hsorted, hentries⟩ := h.scores scores hscores
    have hformed : (Json.obj (scores.mapValues Expr.toJson)).isWellFormed = true :=
      Bool.and_eq_true_iff.mpr ⟨decide_eq_true (hsorted.mapValues Expr.toJson),
        wellFormedEntries_mapValues fun entry hentry =>
          Expr.isWellFormed_toJson entry.2 (hentries entry hentry).finite⟩
    rw [sorted_of_isWellFormed _ hformed]
    exact ⟨Json.noConfusion,
      fromValue_table hsorted fun entry hentry => Expr.fromValue_toJson (hentries entry hentry)⟩
  have hemission (t : Template) (ht : r.emission? = some t) :
      t.toJson.sorted ≠ .null ∧
        fromValue Template.decoder t.toJson.sorted = .ok t.unsigned := by
    obtain ⟨hread, hnull⟩ := h.emission t ht
    rw [Template.sorted_toJson hread]
    exact ⟨hnull, Template.fromValue_toJson hread⟩
  have htext (text : String) :
      (Json.str text).sorted ≠ .null ∧
        fromValue Decoder.string (Json.str text).sorted = .ok text :=
    ⟨Json.noConfusion, rfl⟩
  -- the fields in the order of their names
  refine Eq.trans (Record.copy_cons_of_ok _ (Json.Field.copy_optional
    (fun assertion? (r : Rule) => { r with assertion? }) Expr.unsigned
    (fun e he => hexpr (h.assertion e he)) rfl)) ?_
  refine Eq.trans (Record.copy_cons_of_ok _ (Json.Field.copy_optional
    (fun emission? (r : Rule) => { r with emission? }) Template.unsigned hemission rfl)) ?_
  refine Eq.trans (Record.copy_cons_of_ok _ (Json.Field.copy_optional
    (fun explanation? (r : Rule) => { r with explanation? }) (fun text => text)
    (fun text _ => htext text) rfl)) ?_
  refine Eq.trans (Record.copy_cons_of_ok _ (Json.Field.copy_shown
    (fun id (r : Rule) => { r with id }) rfl)) ?_
  refine Eq.trans (Record.copy_cons_of_ok _ (Json.Field.copy_optional
    (fun scores? (r : Rule) => { r with scores? }) (Table.mapValues Expr.unsigned)
    hscores rfl)) ?_
  refine Eq.trans (Record.copy_cons_of_ok _ (Json.Field.copy_listing
    (fun tags (r : Rule) => { r with tags }) (fun tag => tag) (fun _ _ => rfl) rfl)) ?_
  refine Eq.trans (Record.copy_cons_of_ok _ (Json.Field.copy_optional
    (fun gate? (r : Rule) => { r with gate? }) Expr.unsigned
    (fun e he => hexpr (h.gate e he)) rfl)) ?_
  show Except.ok _ = Except.ok r.unsigned
  unfold unsigned
  rw [Option.map_id', List.map_id']

theorem fromValue_encode (h : r.ReadsBack) :
    fromValue record.decoder (record.encode r).sorted = .ok r.unsigned := by
  rw [ordered.fromValue_encode]
  exact h.copy_order

theorem same_unsigned (h : r.ReadsBack) : r.same r.unsigned = true := by
  have hgate : sameOption Expr.same r.gate? r.unsigned.gate? = true :=
    sameOption_map fun e he => Expr.same_unsigned e (h.gate e he).1.finite
  have hscores : sameOption (Table.sameBy Expr.same) r.scores? r.unsigned.scores? = true :=
    sameOption_map fun scores hscores => Table.sameBy_mapValues fun entry hentry =>
      Expr.same_unsigned entry.2 ((h.scores scores hscores).2 entry hentry).finite
  have hemission : sameOption Template.same r.emission? r.unsigned.emission? = true :=
    sameOption_map fun t ht => (h.emission t ht).1.same
  have hassertion : sameOption Expr.same r.assertion? r.unsigned.assertion? = true :=
    sameOption_map fun e he => Expr.same_unsigned e (h.assertion e he).1.finite
  have hid : (r.id == r.unsigned.id) = true := beq_self_eq_true r.id
  have hexplanation : (r.explanation? == r.unsigned.explanation?) = true :=
    beq_self_eq_true r.explanation?
  have htags : (r.tags == r.unsigned.tags) = true := beq_self_eq_true r.tags
  unfold same
  rw [hid, hgate, hscores, hemission, hassertion, hexplanation, htags]
  rfl

end ReadsBack

theorem encode_unsigned (r : Rule) : record.encode r.unsigned = record.encode r := by
  have hexpr : Expr.toJson ∘ Expr.unsigned = Expr.toJson := funext Expr.toJson_unsigned
  have htemplate : Template.toJson ∘ Template.unsigned = Template.toJson :=
    funext Template.toJson_unsigned
  have hscores : (fun scores : Table Expr => Json.obj (scores.mapValues Expr.toJson)) ∘
      Table.mapValues Expr.unsigned = fun scores => .obj (scores.mapValues Expr.toJson) := by
    funext scores
    show Json.obj (List.map _ (List.map _ scores)) = _
    rw [List.map_map]
    apply congrArg Json.obj
    apply List.map_congr_left
    intro entry _
    exact congrArg (entry.1, ·) (Expr.toJson_unsigned entry.2)
  apply Record.encode_congr
  intro f hf
  simp only [record, List.mem_cons, List.not_mem_nil, or_false] at hf
  rcases hf with rfl | rfl | rfl | rfl | rfl | rfl | rfl
  · rfl
  · show (r.gate?.map Expr.unsigned).map Expr.toJson = r.gate?.map Expr.toJson
    rw [Option.map_map, hexpr]
  · show (r.scores?.map (Table.mapValues Expr.unsigned)).map _ = r.scores?.map _
    rw [Option.map_map, hscores]
  · show (r.emission?.map Template.unsigned).map Template.toJson = r.emission?.map Template.toJson
    rw [Option.map_map, htemplate]
  · show (r.assertion?.map Expr.unsigned).map Expr.toJson = r.assertion?.map Expr.toJson
    rw [Option.map_map, hexpr]
  · rfl
  · rfl

/-!
# Rules that have been read
-/

theorem keeps_readsBack : record.Keeps ReadsBack := by
  have hexpr {value : Json} (hvalue : value.isWellFormed = true) (hnull : value ≠ .null) {e : Expr}
      (h : fromValue Expr.decoder value = .ok e) : e.FitsAt 0 ∧ e ≠ .literal .null :=
    ⟨Expr.fitsAt_of_fromValue hvalue h, Expr.ne_null_of_parseAt hnull (made_of_via hvalue h)⟩
  intro f hf value hvalue change hchange r hr
  simp only [record, List.mem_cons, List.not_mem_nil, or_false] at hf
  rcases hf with rfl | rfl | rfl | rfl | rfl | rfl | rfl
  · obtain ⟨id, _, rfl⟩ := Json.Field.of_read_shown hchange
    exact ⟨hr.gate, hr.scores, hr.emission, hr.assertion⟩
  · obtain ⟨gate?, hgate, rfl⟩ := Json.Field.of_read_optional hchange
    refine ⟨?_, hr.scores, hr.emission, hr.assertion⟩
    intro e he
    obtain ⟨hnull, hread⟩ := hgate e he
    exact hexpr hvalue hnull hread
  · obtain ⟨scores?, hscores, rfl⟩ := Json.Field.of_read_optional hchange
    refine ⟨hr.gate, ?_, hr.emission, hr.assertion⟩
    intro scores hsome
    obtain ⟨hsorted, hentries⟩ := of_table hvalue (hscores scores hsome).2
    refine ⟨hsorted, fun entry hentry => ?_⟩
    -- null is a literal here, so nothing has to be ruled out
    obtain ⟨value, hvalue, hread⟩ := hentries entry hentry
    exact Expr.fitsAt_of_fromValue hvalue hread
  · obtain ⟨emission?, hemission, rfl⟩ := Json.Field.of_read_optional hchange
    refine ⟨hr.gate, hr.scores, ?_, hr.assertion⟩
    intro t ht
    obtain ⟨hnull, hread⟩ := hemission t ht
    have hparse := made_of_via hvalue hread
    refine ⟨Template.readsBackAt_of_parseAt value hvalue hparse, fun hwritten => ?_⟩
    exact hnull (Template.eq_null_of_toJson hparse hwritten).1
  · obtain ⟨assertion?, hassertion, rfl⟩ := Json.Field.of_read_optional hchange
    refine ⟨hr.gate, hr.scores, hr.emission, ?_⟩
    intro e he
    obtain ⟨hnull, hread⟩ := hassertion e he
    exact hexpr hvalue hnull hread
  · obtain ⟨explanation?, _, rfl⟩ := Json.Field.of_read_optional hchange
    exact ⟨hr.gate, hr.scores, hr.emission, hr.assertion⟩
  · obtain ⟨tags, rfl⟩ := Json.Field.of_read_listing hchange
    exact ⟨hr.gate, hr.scores, hr.emission, hr.assertion⟩

theorem readsBack_of_fromValue {value : Json} (hvalue : value.isWellFormed = true) {r : Rule}
    (h : fromValue record.decoder value = .ok r) : r.ReadsBack := by
  refine Record.of_decoder keeps_readsBack ?_ hvalue h
  constructor
  all_goals
    intro _ hmissing
    cases hmissing

end Rule

/-!
# Rule sets
-/

namespace RuleSet

open Json Decoder

def unsigned (s : RuleSet) : RuleSet :=
  { s with rules := s.rules.map Rule.unsigned }

def same (a b : RuleSet) : Bool :=
  a.id == b.id && a.version == b.version && a.description? == b.description? &&
    a.rules.isEqv b.rules Rule.same

def order : List (Json.Field RuleSet) :=
  ([2, 0, 3, 1] : List (Fin 4)).map record.fields.get

theorem ordered : record.Ordered order := by
  apply Record.Ordered.of_indices
  · show (List.finRange 4).Perm [2, 0, 3, 1]
    decide
  · show ["description", "id", "rules", "version"].Pairwise (· < ·)
    decide
  · intro f hf hrequired shown
    simp only [record, List.mem_cons, List.not_mem_nil, or_false] at hf
    rcases hf with rfl | rfl | rfl | rfl
    · rfl
    · rfl
    all_goals cases hrequired

variable {s : RuleSet}

theorem copy_order (h : ∀ r ∈ s.rules, r.ReadsBack) :
    Record.copy order s record.blank = .ok s.unsigned := by
  have hrules : fromValue (Decoder.list Rule.record.decoder)
      (Json.arr (s.rules.map Rule.record.encode)).sorted = .ok (s.rules.map Rule.unsigned) :=
    fromValue_list_sorted Rule.unsigned fun r hr => (h r hr).fromValue_encode
  refine Eq.trans (Record.copy_cons_of_ok _ (Json.Field.copy_optional
    (fun description? (s : RuleSet) => { s with description? }) (fun text => text)
    (fun _ _ => ⟨Json.noConfusion, rfl⟩) rfl)) ?_
  refine Eq.trans (Record.copy_cons_of_ok _ (Json.Field.copy_shown
    (fun id (s : RuleSet) => { s with id }) rfl)) ?_
  refine Eq.trans (Record.copy_cons_of_ok _ (Json.Field.copy_shown
    (fun rules (s : RuleSet) => { s with rules }) hrules)) ?_
  refine Eq.trans (Record.copy_cons_of_ok _ (Json.Field.copy_shown
    (fun version (s : RuleSet) => { s with version }) rfl)) ?_
  show Except.ok _ = Except.ok s.unsigned
  unfold unsigned
  rw [Option.map_id']

theorem ofJson_sorted_toJson (h : ∀ r ∈ s.rules, r.ReadsBack) :
    ofJson s.toJson.sorted = .ok s.unsigned := by
  unfold ofJson toJson
  rw [ordered.fromValue_encode, copy_order h]
  rfl

theorem toJson_unsigned (s : RuleSet) : s.unsigned.toJson = s.toJson := by
  apply Record.encode_congr
  intro f hf
  simp only [record, List.mem_cons, List.not_mem_nil, or_false] at hf
  rcases hf with rfl | rfl | rfl | rfl
  · rfl
  · rfl
  · rfl
  · show some (Json.arr ((s.rules.map Rule.unsigned).map Rule.record.encode)) =
      some (Json.arr (s.rules.map Rule.record.encode))
    rw [List.map_map, show Rule.record.encode ∘ Rule.unsigned = Rule.record.encode from
      funext Rule.encode_unsigned]

theorem same_unsigned (h : ∀ r ∈ s.rules, r.ReadsBack) : s.same s.unsigned = true := by
  have hid : (s.id == s.unsigned.id) = true := beq_self_eq_true s.id
  have hversion : (s.version == s.unsigned.version) = true := beq_self_eq_true s.version
  have hdescription : (s.description? == s.unsigned.description?) = true :=
    beq_self_eq_true s.description?
  have hrules : s.rules.isEqv s.unsigned.rules Rule.same = true :=
    isEqv_map fun r hr => (h r hr).same_unsigned
  unfold same
  rw [hid, hversion, hdescription, hrules]
  rfl

theorem keeps_readsBack : record.Keeps fun s => ∀ r ∈ s.rules, r.ReadsBack := by
  intro f hf value hvalue change hchange s hs
  simp only [record, List.mem_cons, List.not_mem_nil, or_false] at hf
  rcases hf with rfl | rfl | rfl | rfl
  · obtain ⟨id, _, rfl⟩ := Json.Field.of_read_shown hchange
    exact hs
  · obtain ⟨version, _, rfl⟩ := Json.Field.of_read_shown hchange
    exact hs
  · obtain ⟨description?, _, rfl⟩ := Json.Field.of_read_optional hchange
    exact hs
  · obtain ⟨rules, hrules, rfl⟩ := Json.Field.of_read_shown hchange
    intro r hr
    obtain ⟨item, hitem, hread⟩ := of_list hvalue hrules hr
    exact Rule.readsBack_of_fromValue hitem hread

theorem readsBack_of_ofJson {value : Json} (hvalue : value.isWellFormed = true)
    (h : ofJson value = .ok s) : ∀ r ∈ s.rules, r.ReadsBack := by
  unfold ofJson at h
  cases hread : fromValue record.decoder value with
  | error e =>
      rw [hread] at h
      cases h
  | ok read =>
      rw [hread] at h
      cases h
      exact Record.of_decoder keeps_readsBack (fun r hr => absurd hr List.not_mem_nil) hvalue hread

/-- A rule set that has been read survives being written and read once more, and is then written
as before. -/
theorem ofJson_toJson_of_ofJson {document : Json.Document} (h : ofJson document.value = .ok s) :
    ∃ s', ofJson s.toJson.sorted = .ok s' ∧ s.same s' = true ∧
      s'.toJson.sorted = s.toJson.sorted ∧
      Digest.ofJson s'.toJson.sorted = Digest.ofJson s.toJson.sorted := by
  have hrules := readsBack_of_ofJson document.wellFormed h
  refine ⟨s.unsigned, ofJson_sorted_toJson hrules, same_unsigned hrules, ?_, ?_⟩
  · rw [toJson_unsigned]
  · rw [toJson_unsigned]

/-- A signed zero in a gate, an empty table of scores, a score that is null, and expressions at
different depths of an emission. -/
theorem ofJson_toJson_of_ofJson_nested :
    let half : Json :=
      .obj [("args", .arr [.num (.int 1), .num (.double 2.0)]), ("op", .str "div")]
    let value : Json :=
      .obj [("id", .str "s"),
        ("rules", .arr [
          .obj [("emit", .obj [
              ("parts", .arr [half, .obj [("plain", .null)]]),
              ("stem", .obj [("var", .str "day.stem")])]),
            ("explain", .null),
            ("id", .str "r"),
            ("score", .obj []),
            ("tags", .arr [.str "t"]),
            ("when", .obj [("args", .arr [.num (.double (-0.0)), .num (.int 1)]),
              ("op", .str "lt")])],
          .obj [("assert", .bool false), ("id", .str "q"), ("score", .obj [("fire", .null)])]]),
        ("version", .str "1")]
    let s : RuleSet :=
      { id := "s"
        version := "1"
        rules := [
          { id := "r"
            gate? := some (.call .lt [.number (-0.0), .number 1.0])
            scores? := some []
            emission? := some (.map [
              ("parts", .list [
                .expr (.call .div [.number 1.0, .number 2.0]),
                .map [("plain", .literal .null)]]),
              ("stem", .expr (.var "day.stem"))])
            tags := ["t"] },
          { id := "q"
            scores? := some [("fire", .literal .null)]
            assertion? := some (.bool false) }] }
    ofJson value = .ok s ∧
      ∃ s', ofJson s.toJson.sorted = .ok s' ∧ s.same s' = true ∧
        s'.toJson.sorted = s.toJson.sorted ∧
        Digest.ofJson s'.toJson.sorted = Digest.ofJson s.toJson.sorted := by
  intro half value s
  have hformed : value.isWellFormed = true := by decide +kernel
  have hread : ofJson value = .ok s := rfl
  let document : Json.Document := { value, wellFormed := hformed }
  have hdocument : ofJson document.value = .ok s := hread
  exact ⟨hread, ofJson_toJson_of_ofJson hdocument⟩

end RuleSet
end Reckoner
