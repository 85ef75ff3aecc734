import Nestrs.Auth.Server
import Nestrs.Resource.Validate

/-!
# The entities of the api app, and what its callers may do with them

Model of `apps/api/src/orgs/entity.rs`, `apps/api/src/users/entity.rs` and of the policy
`apps/api/src/authz/ability.rs`. The two entities are declared with `#[expose]`; the columns are
`NOT NULL`, as `apps/db/src/migrations` creates them.

Results:
* `can_user_iff`, `can_org_iff`: what the policy comes to, action by action;
* `keeps_iff`: the filter of a caller keeps the same rows.
-/

namespace Nestrs.Api

open Nestrs.Lib Nestrs.Authz Nestrs.Orm Nestrs.Http Nestrs.Crud Nestrs.Resource Nestrs.Auth

/-! ## Entities -/

/-- The columns of the app: ids are `Uuid`s, everything else is text. -/
def schema : Schema := fun _ c => if c = "id" ∨ c = "org_id" then .uuid else .string

/-- `orgs::entity::Entity`. -/
def orgEntity : Entity schema where
  type := 0
  tableName := "org"
  columns := ["id", "name"]
  pk := "id"
  uuid := rfl

/-- `users::entity::Entity`. -/
def userEntity : Entity schema where
  type := 1
  tableName := "user"
  columns := ["id", "org_id", "name", "email"]
  pk := "id"
  uuid := rfl

/-- `HasOne<..>` and `HasMany<..>`, which are no columns. -/
def relationType (name : String) : ColumnType where
  segments := [name]
  isColumn := false
  variant := .other name
  nullable := false
  serialize
    | .other _ (some s) => .string s
    | _ => .null
  deserialize
    | .string s => some (.other name (some s))
    | _ => none
  round_trip v hvariant hnull := by
    have hnotNull := hnull rfl
    cases v with
    | other name' v =>
      cases hvariant
      cases v with
      | none => cases hnotNull
      | some s => rfl
    | _ => cases hvariant

/-- `orgs::entity::Model`. -/
def org : ExposedEntity orgEntity where
  args := [.name "Org", .complex]
  ident := "Model"
  items := [⟨"id", uuidType, true, []⟩,
    ⟨"name", stringType, false, [.input ["create", "update"], .validate "length(min = 1)"]⟩,
    ⟨"users", relationType "HasMany", false, [.skip]⟩]
  model := ⟨"Model", "Org", "CreateOrgInput", "UpdateOrgInput", "OrgPage",
    [⟨"id", uuidType, false, false, false, true, []⟩,
      ⟨"name", stringType, false, true, true, false, ["length(min = 1)"]⟩,
      ⟨"users", relationType "HasMany", true, false, false, false, []⟩], true, false⟩
  accepted := rfl
  nodup := by
    show ["id", "name", "users"].Nodup
    decide
  columns := rfl
  variants f hf hcolumn := by
    simp only [List.mem_cons, List.not_mem_nil, or_false] at hf
    rcases hf with rfl | rfl | rfl
    · rfl
    · rfl
    · cases hcolumn
  relations f hf hcolumn := by
    simp only [List.mem_cons, List.not_mem_nil, or_false] at hf
    rcases hf with rfl | rfl | rfl
    · cases hcolumn
    · cases hcolumn
    · rfl
  uuidToString := hyphenated
  uuid f hf huuid := by
    simp only [List.mem_cons, List.not_mem_nil, or_false] at hf
    rcases hf with rfl | rfl | rfl
    · exact ⟨rfl, rfl, fun u => by simp [uuidType, parseHyphenated_hyphenated]⟩
    · exact absurd huuid (by decide)
    · exact absurd huuid (by decide)
  pk f hf hpk := by
    simp only [List.mem_cons, List.not_mem_nil, or_false] at hf
    rcases hf with rfl | rfl | rfl
    · rfl
    · cases hpk
    · cases hpk
  pk_mem := by decide

/-- `users::entity::Model`. -/
def user : ExposedEntity userEntity where
  args := [.name "User", .complex]
  ident := "Model"
  items := [⟨"id", uuidType, true, []⟩, ⟨"org_id", uuidType, false, []⟩,
    ⟨"name", stringType, false, [.input ["create", "update"], .validate "length(min = 1)"]⟩,
    ⟨"email", stringType, false, [.input ["create", "update"], .validate "email"]⟩,
    ⟨"org", relationType "HasOne", false, [.skip]⟩]
  model := ⟨"Model", "User", "CreateUserInput", "UpdateUserInput", "UserPage",
    [⟨"id", uuidType, false, false, false, true, []⟩,
      ⟨"org_id", uuidType, false, false, false, false, []⟩,
      ⟨"name", stringType, false, true, true, false, ["length(min = 1)"]⟩,
      ⟨"email", stringType, false, true, true, false, ["email"]⟩,
      ⟨"org", relationType "HasOne", true, false, false, false, []⟩], true, false⟩
  accepted := rfl
  nodup := by
    show ["id", "org_id", "name", "email", "org"].Nodup
    decide
  columns := rfl
  variants f hf hcolumn := by
    simp only [List.mem_cons, List.not_mem_nil, or_false] at hf
    rcases hf with rfl | rfl | rfl | rfl | rfl
    · rfl
    · rfl
    · rfl
    · rfl
    · cases hcolumn
  relations f hf hcolumn := by
    simp only [List.mem_cons, List.not_mem_nil, or_false] at hf
    rcases hf with rfl | rfl | rfl | rfl | rfl
    · cases hcolumn
    · cases hcolumn
    · cases hcolumn
    · cases hcolumn
    · rfl
  uuidToString := hyphenated
  uuid f hf huuid := by
    simp only [List.mem_cons, List.not_mem_nil, or_false] at hf
    rcases hf with rfl | rfl | rfl | rfl | rfl
    · exact ⟨rfl, rfl, fun u => by simp [uuidType, parseHyphenated_hyphenated]⟩
    · exact ⟨rfl, rfl, fun u => by simp [uuidType, parseHyphenated_hyphenated]⟩
    · exact absurd huuid (by decide)
    · exact absurd huuid (by decide)
    · exact absurd huuid (by decide)
  pk f hf hpk := by
    simp only [List.mem_cons, List.not_mem_nil, or_false] at hf
    rcases hf with rfl | rfl | rfl | rfl | rfl
    · rfl
    · cases hpk
    · cases hpk
    · cases hpk
    · cases hpk
  pk_mem := List.mem_cons_self

/-! ## The policy -/

/-- The organisation is the caller's. -/
def ownOrg (column : Column) (actor : Claims) : Predicate := .eq column (.uuid (some actor.orgId))

/-- `AppAbility::define`. -/
def AppAbility.define (actor : Claims) : List RuleSpec :=
  if actor.isAdmin then
    [(RuleSpec.can .read userEntity.type).when (ownOrg "org_id" actor),
      (RuleSpec.can .manage userEntity.type).when (ownOrg "org_id" actor),
      RuleSpec.can .manage orgEntity.type]
  else
    [((RuleSpec.can .read userEntity.type).when (ownOrg "org_id" actor)).withFields ["id", "name"],
      (RuleSpec.can .create userEntity.type).when (ownOrg "org_id" actor),
      (RuleSpec.can .read orgEntity.type).when (ownOrg "id" actor)]

/-- The ability of a caller. -/
def abilityOf (actor : Claims) : Ability := buildAbility (AppAbility.define actor)

section Policy

variable {actor : Claims} {action : Action}

theorem predicate_define : ∀ spec ∈ AppAbility.define actor, spec.predicate = .always ∨
    spec.predicate = ownOrg "org_id" actor ∨ spec.predicate = ownOrg "id" actor := by
  intro spec hspec
  unfold AppAbility.define at hspec
  split at hspec
  · simp only [List.mem_cons, List.not_mem_nil, or_false] at hspec
    rcases hspec with rfl | rfl | rfl
    · exact .inr (.inl rfl)
    · exact .inr (.inl rfl)
    · exact .inl rfl
  · simp only [List.mem_cons, List.not_mem_nil, or_false] at hspec
    rcases hspec with rfl | rfl | rfl
    · exact .inr (.inl rfl)
    · exact .inr (.inl rfl)
    · exact .inr (.inr rfl)

theorem wellTyped_define (actor : Claims) :
    ∀ spec ∈ AppAbility.define actor, spec.WellTyped schema := by
  have hown : ∀ column, column = "id" ∨ column = "org_id" → ∀ e,
      (ownOrg column actor).WellTyped (schema e) := by
    intro column hcolumn e k hk c vs ho v hv
    rw [ownOrg, Predicate.comparisons, List.mem_singleton] at hk
    subst hk
    cases ho
    rw [List.mem_singleton.mp hv, schema, if_pos hcolumn]
    rfl
  intro spec hspec
  unfold RuleSpec.WellTyped
  rcases predicate_define spec hspec with h | h | h
  · rw [h]
    intro k hk
    rw [Predicate.comparisons] at hk
    exact absurd hk List.not_mem_nil
  · rw [h]
    exact hown _ (.inr rfl) _
  · rw [h]
    exact hown _ (.inl rfl) _

theorem mem_rulesFor {specs : List RuleSpec} {e : TypeId} {rule : Rule} :
    rule ∈ (buildAbility specs).rulesFor action e ↔ ∃ spec ∈ specs,
      spec.subject = e ∧ (spec.action = action ∨ spec.action = .manage) ∧ rule = spec.rule := by
  unfold Ability.rulesFor
  rw [List.mem_append, rules_buildAbility]
  constructor
  · rintro (h | h)
    · obtain ⟨spec, hspec, rfl⟩ := List.mem_map.mp h
      obtain ⟨hmem, hkey⟩ := List.mem_filter.mp hspec
      obtain ⟨rfl, rfl⟩ := of_decide_eq_true hkey
      exact ⟨spec, hmem, rfl, .inl rfl, rfl⟩
    · split at h
      · exact absurd h List.not_mem_nil
      · rw [rules_buildAbility] at h
        obtain ⟨spec, hspec, rfl⟩ := List.mem_map.mp h
        obtain ⟨hmem, hkey⟩ := List.mem_filter.mp hspec
        obtain ⟨haction, rfl⟩ := of_decide_eq_true hkey
        exact ⟨spec, hmem, rfl, .inr haction.symm, rfl⟩
  · rintro ⟨spec, hmem, rfl, haction, rfl⟩
    by_cases hsame : spec.action = action
    · exact .inl (List.mem_map_of_mem
        (List.mem_filter.mpr ⟨hmem, decide_eq_true ⟨hsame.symm, rfl⟩⟩))
    · have hmanage := haction.resolve_left hsame
      rw [hmanage] at hsame
      rw [if_neg (Ne.symm hsame), rules_buildAbility]
      exact .inr (List.mem_map_of_mem
        (List.mem_filter.mpr ⟨hmem, decide_eq_true ⟨hmanage.symm, rfl⟩⟩))

/-- With grants only, a row passes when one of them matches it. -/
theorem can_of_grants {specs : List RuleSpec} (hgrants : ∀ spec ∈ specs, spec.inverted = false)
    {σ : Schema} {e : TypeId} {r : Model σ e} : (buildAbility specs).can action r = true ↔
      ∃ spec ∈ specs, spec.subject = e ∧ (spec.action = action ∨ spec.action = .manage) ∧
        spec.predicate.matches r.get = true := by
  rw [Ability.can_iff]
  constructor
  · rintro ⟨⟨rule, hrule, -, hmatches⟩, -⟩
    obtain ⟨spec, hmem, hsubject, haction, rfl⟩ := mem_rulesFor.mp hrule
    exact ⟨spec, hmem, hsubject, haction, hmatches⟩
  · rintro ⟨spec, hmem, hsubject, haction, hmatches⟩
    refine ⟨⟨spec.rule, mem_rulesFor.mpr ⟨spec, hmem, hsubject, haction, rfl⟩, hgrants spec hmem,
      hmatches⟩, fun rule hrule hinverted => ?_⟩
    obtain ⟨spec', hmem', -, -, rfl⟩ := mem_rulesFor.mp hrule
    exact absurd ((hgrants spec' hmem').symm.trans hinverted) Bool.false_ne_true

theorem grants_define (actor : Claims) :
    ∀ spec ∈ AppAbility.define actor, spec.inverted = false := by
  intro spec hspec
  unfold AppAbility.define at hspec
  split at hspec
  · simp only [List.mem_cons, List.not_mem_nil, or_false] at hspec
    rcases hspec with rfl | rfl | rfl <;> rfl
  · simp only [List.mem_cons, List.not_mem_nil, or_false] at hspec
    rcases hspec with rfl | rfl | rfl <;> rfl

theorem matches_ownOrg {column : Column} {get : Column → Value} :
    (ownOrg column actor).matches get = true ↔ get column = .uuid (some actor.orgId) := by
  rw [ownOrg, Predicate.matches, beq_iff_eq]

/-- **Users**: the caller may read and create those of its organisation, and an admin may do
anything with them. -/
theorem can_user_iff {r : userEntity.Row} : (abilityOf actor).can action r = true ↔
    r.get "org_id" = .uuid (some actor.orgId) ∧
      (actor.isAdmin = true ∨ action = .read ∨ action = .create) := by
  rw [abilityOf, can_of_grants (grants_define actor)]
  unfold AppAbility.define
  by_cases hadmin : actor.isAdmin = true
  · simp [hadmin, RuleSpec.can, RuleSpec.new, RuleSpec.when, matches_ownOrg, userEntity, orgEntity]
  · simp [hadmin, RuleSpec.can, RuleSpec.new, RuleSpec.when, RuleSpec.withFields, matches_ownOrg,
      userEntity, orgEntity]
    tauto

/-- **Organisations**: an admin may do anything with all of them, another caller may read its
own. -/
theorem can_org_iff {r : orgEntity.Row} : (abilityOf actor).can action r = true ↔
    actor.isAdmin = true ∨ action = .read ∧ r.get "id" = .uuid (some actor.orgId) := by
  rw [abilityOf, can_of_grants (grants_define actor)]
  unfold AppAbility.define
  by_cases hadmin : actor.isAdmin = true
  · simp [hadmin, RuleSpec.can, RuleSpec.new, RuleSpec.when, Predicate.matches, userEntity,
      orgEntity]
  · simp [hadmin, RuleSpec.can, RuleSpec.new, RuleSpec.when, RuleSpec.withFields, matches_ownOrg,
      userEntity, orgEntity]
    tauto

theorem eval_ownOrg {sql : Sql} {column : Column} {get : Column → Value}
    (h : (ownOrg column actor).matches get = true) :
    (ownOrg column actor).toCondition.eval sql get = Tri.true := by
  rw [ownOrg, Predicate.eval_eq, matches_ownOrg.mp h]
  exact Predicate.sqlEq_self rfl

/-- **The filter of a caller keeps what the caller may act on**, and nothing else. -/
theorem keeps_iff {sql : Sql} {e : TypeId} {r : Model schema e} :
    ((abilityOf actor).conditionFor action e).Keeps sql r.get ↔
      (abilityOf actor).can action r = true := by
  refine ⟨can_of_keeps (wellTyped_define actor), fun h => ?_⟩
  obtain ⟨⟨rule, hrule, hgrant, hmatches⟩, -⟩ := Ability.can_iff.mp h
  refine Ability.conditionFor_eval_eq_true.mpr ⟨⟨rule, hrule, hgrant, ?_⟩, fun rule' hrule' hdeny =>
    ?_⟩
  · obtain ⟨spec, hspec, -, -, rfl⟩ := mem_rulesFor.mp hrule
    rw [RuleSpec.rule] at hmatches ⊢
    -- no comparison with `NULL` decides a rule of the policy
    rcases predicate_define spec hspec with hp | hp | hp
    · rw [hp]
      exact Predicate.eval_always
    · rw [hp] at hmatches ⊢
      exact eval_ownOrg hmatches
    · rw [hp] at hmatches ⊢
      exact eval_ownOrg hmatches
  · obtain ⟨spec, hspec, -, -, rfl⟩ := mem_rulesFor.mp hrule'
    exact absurd ((grants_define actor spec hspec).symm.trans hdeny) Bool.false_ne_true

end Policy

end Nestrs.Api
