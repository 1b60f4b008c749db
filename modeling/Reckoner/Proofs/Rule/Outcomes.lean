import Reckoner.Proofs.Expr.Values
import Reckoner.Proofs.Json.Record
import Reckoner.Proofs.Rule.Reports

/-!
# Outcomes written and read back

What rules leave behind over the facts of a document is read back from what is
written for it, up to one thing.  An emission of null is written, and null in its
place is read as a missing emission.  All other emissions, and all scores of rules,
are kept.
-/

namespace Reckoner

open Json Decoder

/-!
# What rules leave behind
-/

structure FiniteTable (scores : Table Float) : Prop where
  sorted : scores.Sorted
  finite : ∀ entry ∈ scores, entry.2.isFinite = true

namespace Rule

/-- Rules with a table for their scores and a template of tables for their emission. -/
structure WellFormed (r : Rule) : Prop where
  scores : ∀ scores, r.scores? = some scores -> scores.Sorted
  emission : ∀ t, r.emission? = some t -> t.isWellFormed = true

structure Report.Sound (report : Report) : Prop where
  contribution : FiniteTable report.contribution
  emission : ∀ value, report.emission? = some value -> value.isWellFormed = true

theorem contributions_yields (limits : Limits) (facts : Json) (scores : Table Expr) :
    Yields (fun contribution : Table Float =>
      contribution.keys.Sublist scores.keys ∧
        ∀ entry ∈ contribution, entry.2.isFinite = true)
      (contributions limits facts scores) := by
  induction scores with
  | nil =>
      unfold contributions
      exact .ok ⟨List.Sublist.refl [], fun entry hentry => nomatch hentry⟩
  | cons entry rest ih =>
      unfold contributions
      refine Yields.bind (P := fun _ => True) (fun _ _ => trivial) fun x _ => ?_
      refine ih.bind fun others hothers => .ok ?_
      split
      · rename_i hfinite
        exact ⟨hothers.1.cons_cons entry.1, List.forall_mem_cons.mpr ⟨hfinite, hothers.2⟩⟩
      · exact ⟨hothers.1.cons entry.1, hothers.2⟩

theorem sound_of_report {r : Rule} (hr : r.WellFormed) {limits : Limits} {facts : Json}
    (hfacts : facts.isWellFormed = true) {report : Report}
    (hreport : r.report limits facts = .ok (some report)) : report.Sound := by
  rcases report_cases hreport with ⟨_, hnone⟩ | ⟨found, _, _, hscores, hemission, hfound⟩
  · cases hnone
  · cases hfound
    obtain ⟨hkeys, hfinite⟩ := contributions_yields limits facts _ _ hscores
    constructor
    · refine ⟨?_, hfinite⟩
      have hsorted : Table.Sorted (r.scores?.getD []) := by
        cases hsome : r.scores? with
        | none => exact List.Pairwise.nil
        | some scores => exact hr.scores scores hsome
      rw [Table.sorted_iff_keys] at hsorted ⊢
      exact hsorted.sublist hkeys
    · intro value hvalue
      unfold emission at hemission
      cases hsome : r.emission? with
      | none =>
          rw [hsome, hvalue] at hemission
          cases hemission
      | some t =>
          rw [hsome] at hemission
          obtain ⟨rendered, hrendered, heq⟩ := exists_of_map_eq_ok hemission
          rw [hvalue] at heq
          cases heq
          exact Template.renderAt_yields hfacts limits limits.template t (hr.emission t hsome)
            _ hrendered

end Rule

namespace Outcome

structure Match.Sound (m : Match) : Prop where
  scores : ∀ scores, m.scores? = some scores -> FiniteTable scores
  emission : ∀ value, m.emission? = some value -> value.isWellFormed = true

structure Sound (o : Outcome) : Prop where
  scores : o.scores.Sorted
  emits : ∀ value ∈ o.emits, value.isWellFormed = true
  trace : ∀ m ∈ o.trace, m.Sound

theorem sorted_addScores {scores : Table Float} (hscores : scores.Sorted)
    (contribution : Table Float) : (addScores scores contribution).Sorted := by
  unfold addScores
  induction contribution generalizing scores with
  | nil => exact hscores
  | cons entry rest ih => exact ih (hscores.insert entry.1 _)

theorem Match.sound_of_matchOf {r : Rule} {report : Rule.Report} (hreport : report.Sound)
    {m : Match} (hm : matchOf? r report = some m) : m.Sound := by
  unfold matchOf? at hm
  split at hm
  · cases hm
  · cases hm
    refine ⟨?_, hreport.emission⟩
    intro scores hscores
    dsimp only at hscores
    split at hscores
    · cases hscores
    · cases hscores
      exact hreport.contribution

theorem Sound.enter {o : Outcome} (ho : o.Sound) (r : Rule) {report : Rule.Report}
    (hreport : report.Sound) : (o.enter r report).Sound := by
  constructor
  · exact sorted_addScores ho.scores report.contribution
  · intro value hvalue
    rcases List.mem_append.mp hvalue with hbefore | hnew
    · exact ho.emits value hbefore
    · exact hreport.emission value (Option.mem_toList.mp hnew)
  · intro m hm
    rcases List.mem_append.mp hm with hbefore | hnew
    · exact ho.trace m hbefore
    · exact Match.sound_of_matchOf hreport (Option.mem_toList.mp hnew)

theorem Sound.enterAll {o : Outcome} (ho : o.Sound) {entries : List (Rule × Rule.Report)}
    (hentries : ∀ entry ∈ entries, entry.2.Sound) : (o.enterAll entries).Sound := by
  induction entries generalizing o with
  | nil => exact ho
  | cons entry rest ih =>
      obtain ⟨hentry, hrest⟩ := List.forall_mem_cons.mp hentries
      exact ih (ho.enter entry.1 hentry) hrest

end Outcome

theorem RuleSet.sound_of_evaluate {s : RuleSet} (hs : ∀ r ∈ s.rules, r.WellFormed)
    {limits : Limits} {facts : Json} (hfacts : facts.isWellFormed = true)
    {initial : Table Float} (hinitial : initial.Sorted) {o : Outcome}
    (hrun : s.evaluate limits facts initial = .ok o) : o.Sound := by
  rw [(evaluate_eq_ok hrun).2]
  apply Outcome.Sound.enterAll
  · constructor
    · exact hinitial
    · intro value hvalue
      cases hvalue
    · intro m hm
      cases hm
  · intro entry hentry
    obtain ⟨r, hr, hreported⟩ := List.mem_filterMap.mp hentry
    unfold Rule.reported? at hreported
    split at hreported
    · rename_i report hreport
      cases hreported
      exact Rule.sound_of_report (hs r hr) hfacts hreport
    · cases hreported

/-!
# Writing and reading back
-/

theorem fromValue_ofFloats {scores : Table Float} (h : FiniteTable scores) :
    (Json.ofFloats scores).sorted = Json.ofFloats scores ∧
      fromValue Decoder.floats (Json.ofFloats scores) = .ok scores := by
  have hfloat {entry : String × Float} (hentry : entry ∈ scores) :
      Json.ofFloat entry.2 = .num (.double entry.2) :=
    if_pos (h.finite entry hentry)
  constructor
  · apply sorted_of_isWellFormed
    apply Bool.and_eq_true_iff.mpr
    refine ⟨decide_eq_true (h.sorted.mapValues Json.ofFloat), ?_⟩
    apply wellFormedEntries_mapValues
    intro entry hentry
    rw [hfloat hentry]
    exact h.finite entry hentry
  · have hread : fromValue Decoder.floats (.obj (scores.mapValues Json.ofFloat)) =
        .ok (scores.mapValues id) := by
      apply fromValue_table h.sorted
      intro entry hentry
      rw [hfloat hentry]
      rfl
    rw [show scores.mapValues id = scores from List.map_id' scores] at hread
    exact hread

theorem fromValue_json {value : Json} (h : value.isWellFormed = true) :
    fromValue Decoder.json value.sorted = .ok value := by
  unfold fromValue
  rw [sorted_of_isWellFormed value h, json_ofJson, sorted_of_isWellFormed value h]

namespace Outcome

namespace Failure

def order : List (Json.Field Failure) :=
  [1, 0].filterMap fun i => record.fields[i]?

theorem ordered : record.Ordered order := by
  apply Record.Ordered.of_indices (r := record) ([1, 0] : List (Fin 2))
  · show (List.finRange 2).Perm [1, 0]
    decide
  · show ["explain", "ruleId"].Pairwise (· < ·)
    decide
  · intro f hf hrequired shown
    simp only [record, List.mem_cons, List.not_mem_nil, or_false] at hf
    rcases hf with rfl | rfl
    · rfl
    · cases hrequired

theorem fromValue_encode (f : Failure) :
    fromValue record.decoder (record.encode f).sorted = .ok f := by
  rw [ordered.fromValue_encode]
  refine Eq.trans (Record.copy_cons_of_ok _ (Json.Field.copy_optional
    (fun explanation? (f : Failure) => { f with explanation? }) (fun text => text)
    (fun _ _ => ⟨Json.noConfusion, rfl⟩) rfl)) ?_
  refine Eq.trans (Record.copy_cons_of_ok _ (Json.Field.copy_shown
    (fun ruleId (f : Failure) => { f with ruleId }) rfl)) ?_
  rw [Option.map_id']
  rfl

end Failure

namespace Match

/-- The emission that is read where one is written: null stands for none. -/
def readEmission? : Option Json -> Option Json
  | some .null => none
  | emission? => emission?

def reread (m : Match) : Match :=
  { m with emission? := readEmission? m.emission? }

def order : List (Json.Field Match) :=
  [4, 1, 0, 3, 2].filterMap fun i => record.fields[i]?

theorem ordered : record.Ordered order := by
  apply Record.Ordered.of_indices (r := record) ([4, 1, 0, 3, 2] : List (Fin 5))
  · show (List.finRange 5).Perm [4, 1, 0, 3, 2]
    decide
  · show ["emit", "explain", "ruleId", "scores", "tags"].Pairwise (· < ·)
    decide
  · intro f hf hrequired shown
    simp only [record, List.mem_cons, List.not_mem_nil, or_false] at hf
    rcases hf with rfl | rfl | rfl | rfl | rfl
    · rfl
    all_goals cases hrequired

theorem readEmission?_of_ne {value : Json} (h : value ≠ .null) :
    readEmission? (some value) = some value := by
  cases value with
  | null => exact absurd rfl h
  | _ => rfl

theorem copy_emission {m : Match} (hm : m.Sound) (blank : Match)
    (hblank : blank.emission? = none) :
    (Json.Field.optional "emit" Decoder.json id Match.emission?
      fun emission? m => { m with emission? }).copy m blank =
      .ok { blank with emission? := readEmission? m.emission? } := by
  cases hemission : m.emission? with
  | none =>
      rw [Json.Field.copy_of_none (congrArg (Option.map id) hemission)]
      show _ = Except.ok { blank with emission? := none }
      rw [← hblank]
  | some value =>
      rw [Json.Field.copy_of_some (congrArg (Option.map id) hemission)]
      by_cases hnull : value = .null
      · rw [hnull]
        rfl
      · have hsorted : value.sorted = value :=
          sorted_of_isWellFormed value (hm.emission value hemission)
        show ((fromValue (Decoder.optional Decoder.json) value.sorted).map _).map _ = _
        rw [fromValue_optional (hsorted.symm ▸ hnull),
          fromValue_json (hm.emission value hemission), readEmission?_of_ne hnull]
        rfl

theorem fromValue_encode {m : Match} (hm : m.Sound) :
    fromValue record.decoder (record.encode m).sorted = .ok m.reread := by
  rw [ordered.fromValue_encode]
  refine Eq.trans (Record.copy_cons_of_ok _ (copy_emission hm _ rfl)) ?_
  refine Eq.trans (Record.copy_cons_of_ok _ (Json.Field.copy_optional
    (fun explanation? (m : Match) => { m with explanation? }) (fun text => text)
    (fun _ _ => ⟨Json.noConfusion, rfl⟩) rfl)) ?_
  refine Eq.trans (Record.copy_cons_of_ok _ (Json.Field.copy_shown
    (fun ruleId (m : Match) => { m with ruleId }) rfl)) ?_
  refine Eq.trans (Record.copy_cons_of_ok _ (Json.Field.copy_optional
    (fun scores? (m : Match) => { m with scores? }) (fun scores => scores)
    (fun scores hscores => ?_) rfl)) ?_
  · obtain ⟨hsame, hread⟩ := fromValue_ofFloats (hm.scores scores hscores)
    rw [hsame]
    exact ⟨Json.noConfusion, hread⟩
  refine Eq.trans (Record.copy_cons_of_ok _ (Json.Field.copy_listing
    (fun tags (m : Match) => { m with tags }) (fun tag => tag) (fun _ _ => rfl) rfl)) ?_
  rw [Option.map_id', Option.map_id', List.map_id']
  rfl

theorem reread_eq_iff (m : Match) : m.reread = m ↔ m.emission? ≠ some .null := by
  constructor
  · intro hsame hnull
    have hlost := congrArg Match.emission? hsame
    rw [reread, hnull] at hlost
    cases hlost
  · intro hkept
    have hemission : readEmission? m.emission? = m.emission? := by
      cases hemission : m.emission? with
      | none => rfl
      | some value =>
          apply readEmission?_of_ne
          rintro rfl
          exact hkept hemission
    rw [reread, hemission]

end Match

def reread (o : Outcome) : Outcome :=
  { o with trace := o.trace.map Match.reread }

theorem reread_eq_iff (o : Outcome) : o.reread = o ↔ ∀ m ∈ o.trace, m.emission? ≠ some .null := by
  have htrace : o.reread = o ↔ o.trace.map Match.reread = o.trace.map id := by
    rw [List.map_id]
    constructor
    · exact congrArg Outcome.trace
    · intro hsame
      rw [reread, hsame]
  rw [htrace, List.map_inj_left]
  exact forall₂_congr fun m _ => m.reread_eq_iff

def order : List (Json.Field Outcome) :=
  [2, 1, 3, 0].filterMap fun i => record.fields[i]?

theorem ordered : record.Ordered order := by
  apply Record.Ordered.of_indices (r := record) ([2, 1, 3, 0] : List (Fin 4))
  · show (List.finRange 4).Perm [2, 1, 3, 0]
    decide
  · show ["assertionsFailed", "emits", "matches", "scores"].Pairwise (· < ·)
    decide
  · intro f hf _ shown
    simp only [record, List.mem_cons, List.not_mem_nil, or_false] at hf
    rcases hf with rfl | rfl | rfl | rfl
    all_goals rfl

theorem fromValue_toJson {o : Outcome} (ho : o.Sound)
    (hfinite : ∀ entry ∈ o.scores, entry.2.isFinite = true) :
    fromValue record.decoder o.toJson.sorted = .ok o.reread := by
  have hfailures : fromValue (Decoder.list Failure.record.decoder)
      (Json.arr (o.failures.map Failure.record.encode)).sorted = .ok (o.failures.map id) :=
    fromValue_list_sorted id fun f _ => f.fromValue_encode
  have hemits : fromValue (Decoder.list Decoder.json) (Json.arr (o.emits.map id)).sorted =
      .ok (o.emits.map id) :=
    fromValue_list_sorted id fun value hvalue => fromValue_json (ho.emits value hvalue)
  have htrace : fromValue (Decoder.list Match.record.decoder)
      (Json.arr (o.trace.map Match.record.encode)).sorted = .ok (o.trace.map Match.reread) :=
    fromValue_list_sorted Match.reread fun m hm => Match.fromValue_encode (ho.trace m hm)
  obtain ⟨hsame, hscores⟩ := fromValue_ofFloats ⟨ho.scores, hfinite⟩
  rw [List.map_id] at hfailures
  rw [List.map_id] at hemits
  unfold toJson
  rw [ordered.fromValue_encode]
  refine Eq.trans (Record.copy_cons_of_ok _ (Json.Field.copy_shown
    (fun failures (o : Outcome) => { o with failures }) hfailures)) ?_
  refine Eq.trans (Record.copy_cons_of_ok _ (Json.Field.copy_shown
    (fun emits (o : Outcome) => { o with emits }) hemits)) ?_
  refine Eq.trans (Record.copy_cons_of_ok _ (Json.Field.copy_shown
    (fun trace (o : Outcome) => { o with trace }) htrace)) ?_
  refine Eq.trans (Record.copy_cons_of_ok _ (Json.Field.copy_shown
    (fun scores (o : Outcome) => { o with scores }) (hsame.symm ▸ hscores))) ?_
  rfl

end Outcome

/-!
# The outcome of a rule set
-/

namespace RuleSet

/-- The outcome of a rule set is read back, only that emissions of null are missing in the trace
then. So it is read back as it is if and only if no rule has emitted null. -/
theorem evaluate_reread {s : RuleSet} (hs : ∀ r ∈ s.rules, r.WellFormed) {limits : Limits}
    {facts : Json.Document} {initial : Table Float} (hinitial : initial.Sorted) {o : Outcome}
    (hrun : s.evaluate limits facts.value initial = .ok o)
    (hfinite : ∀ entry ∈ o.scores, entry.2.isFinite = true) :
    fromValue Outcome.record.decoder o.toJson.sorted = .ok o.reread ∧
      (fromValue Outcome.record.decoder o.toJson.sorted = .ok o ↔
        ∀ m ∈ o.trace, m.emission? ≠ some .null) := by
  have ho := sound_of_evaluate hs facts.wellFormed hinitial hrun
  have hread := Outcome.fromValue_toJson ho hfinite
  refine ⟨hread, ?_⟩
  rw [hread, ← o.reread_eq_iff]
  exact ⟨Except.ok.inj, congrArg Except.ok⟩

/-- Emissions with null in them and an emission of null, beside scores and an assertion that
fails. -/
theorem evaluate_reread_nulls :
    let quotient : Expr := .call .div [.number 1.0, .number 0.0]
    let missing : Template := .expr (.var "missing")
    let s : RuleSet :=
      { id := "s"
        version := "1"
        rules := [
          { id := "r"
            scores? := some [("fire", quotient), ("wood", .number 1.5)]
            emission? := some (.map [("gone", missing), ("quotient", .expr quotient)])
            tags := ["t"] },
          { id := "q", emission? := some missing, assertion? := some (.bool false) }] }
    let facts : Json.Document := { value := .obj [], wellFormed := rfl }
    let initial : Table Float := [("wood", 0.5)]
    (∀ r ∈ s.rules, r.WellFormed) ∧ initial.Sorted ∧
      ∃ o, s.evaluate {} facts.value initial = .ok o ∧
        (∀ entry ∈ o.scores, entry.2.isFinite = true) ∧
        fromValue Outcome.record.decoder o.toJson.sorted = .ok o.reread ∧
        fromValue Outcome.record.decoder o.toJson.sorted ≠ .ok o := by
  intro quotient missing s facts initial
  have hs : ∀ r ∈ s.rules, r.WellFormed := by
    intro r hr
    simp only [s, List.mem_cons, List.not_mem_nil, or_false] at hr
    rcases hr with rfl | rfl
    · constructor
      · rintro _ ⟨⟩
        decide
      · rintro _ ⟨⟩
        decide
    · constructor
      · rintro _ ⟨⟩
      · rintro _ ⟨⟩
        rfl
  have hinitial : initial.Sorted := List.pairwise_singleton _ _
  let nulls : Json := .obj [("gone", .null), ("quotient", .null)]
  let o : Outcome :=
    { scores := [("wood", 0.5 + 1.5)]
      emits := [nulls, .null]
      failures := [{ ruleId := "q" }]
      trace := [
        { ruleId := "r", tags := ["t"], scores? := some [("wood", 1.5)], emission? := some nulls },
        { ruleId := "q", emission? := some .null }] }
  have hrun : s.evaluate {} facts.value initial = .ok o := rfl
  have hfinite : ∀ entry ∈ o.scores, entry.2.isFinite = true := by decide +kernel
  obtain ⟨hread, hkept⟩ := evaluate_reread hs hinitial hrun hfinite
  refine ⟨hs, hinitial, o, hrun, hfinite, hread, ?_⟩
  intro hsame
  exact hkept.mp hsame { ruleId := "q", emission? := some .null } (by simp [o]) rfl

/-- The trace of a rule that has emitted null is read back without an emission. -/
theorem null_emission_lost :
    let s : RuleSet :=
      { id := "s"
        version := "1"
        rules := [{ id := "r", emission? := some (.expr (.var "missing")) }] }
    let o : Outcome :=
      { emits := [.null], trace := [{ ruleId := "r", emission? := some .null }] }
    s.evaluate {} (.obj []) [] = .ok o ∧
      (∀ entry ∈ o.scores, entry.2.isFinite = true) ∧
      fromValue Outcome.record.decoder o.toJson.sorted =
        .ok { emits := [.null], trace := [{ ruleId := "r" }] } ∧
      fromValue Outcome.record.decoder o.toJson.sorted ≠ .ok o := by
  intro s o
  have ho : o.Sound := by
    constructor
    · exact List.Pairwise.nil
    · intro value hvalue
      rw [List.mem_singleton.mp hvalue]
      rfl
    · intro m hm
      rw [List.mem_singleton.mp hm]
      constructor
      · rintro _ ⟨⟩
      · rintro _ ⟨⟩
        rfl
  have hfinite : ∀ entry ∈ o.scores, entry.2.isFinite = true :=
    fun entry hentry => absurd hentry List.not_mem_nil
  have hread : fromValue Outcome.record.decoder o.toJson.sorted =
      .ok { emits := [.null], trace := [{ ruleId := "r" }] } :=
    Outcome.fromValue_toJson ho hfinite
  refine ⟨rfl, hfinite, hread, ?_⟩
  rw [hread]
  intro hsame
  have htrace := congrArg Outcome.trace (Except.ok.inj hsame)
  cases htrace

end RuleSet

end Reckoner
