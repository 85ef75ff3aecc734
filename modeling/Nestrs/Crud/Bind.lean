import Nestrs.Crud.Writes

/-!
# Two route-model bindings of GraphQL

`bind` (`crates/nestrs-authz-graphql/src/bind.rs`) and the by-id query that `#[crud]` generates
(`crates/nestrs-graphql-macros/src/crud.rs`, `resolve … (.get id)`) do the same job: parse the id,
load the row through `CrudService::access`, and answer with the row, with `null`, or with an error.
`bind` first asks for the ability in the operation's context and fails without one; the generated
query drops its context (`let _ = __ctx`) and starts with the id.

`access` denies a row that exists to a caller without an ability and reports one that does not as
missing, so to such a caller the generated query answers `forbidden` or `null`: it tells which ids
exist.

Results:
* `getOutcome_eq`, `bindOutcome_eq`: the outcomes of the two, by the id, the executor, the row and
  the ambient ability;
* **`get_agrees_with_bind_iff`**: for every context, id and database state, when they agree; and
  when a caller without an ability gets the same outcome in two states.
-/

namespace Nestrs.Crud

open Nestrs.Lib Nestrs.Authz Nestrs.Orm Nestrs.Http

variable {σ : Schema} {E : Entity σ}

/-- `bind::<S, A>`; `registered` says whether the container has an `Arc<S>`. -/
def bind (surface : Surface E) (ctx : Option Ability) (ambient : Ambient) (registered : Bool)
    (action : Action) (id : String) (t : Table E) : Except GraphqlError (Option E.Row) := do
  let _ ← contextAbility ctx
  let id ← parseId surface id
  if !registered then .error ⟨"no provider registered for the bound service", none⟩
  else match ← (CrudService.access ambient action id t).mapError graphqlError with
    | .found model => .ok (some model)
    | .denied => .error ⟨"forbidden", some "FORBIDDEN"⟩
    | .missing => .ok none

/-- How a by-id operation may end: with a row, with `null`, or with an error. -/
inductive Outcome (E : Entity σ) where
  | row (r : E.Row)
  | null
  | failed

/-- The outcome of the generated query. -/
def getOutcome (surface : Surface E) (db : Backend E) (ctx : Option Ability) (ambient : Ambient)
    (id : String) (t : Table E) : Outcome E :=
  match resolve surface db ctx ambient (.get id) t with
  | .ok (data, _) =>
    match data.shown with
    | r :: _ => .row r
    | [] => .null
  | .error _ => .failed

/-- The outcome of `bind`. -/
def bindOutcome (surface : Surface E) (ctx : Option Ability) (ambient : Ambient) (id : String)
    (t : Table E) : Outcome E :=
  match bind surface ctx ambient true .read id t with
  | .ok (some r) => .row r
  | .ok none => .null
  | .error _ => .failed

/-- The ambient ability lets the row be read. -/
def readable (ambient : Ambient) (r : E.Row) : Bool :=
  match ambient.ability with
  | some ability => ability.can .read r
  | none => false

/-- The outcome of a load by a valid id. -/
def loadOutcome (ambient : Ambient) (uuid : Uuid) (t : Table E) : Outcome E :=
  if ambient.executor then
    match t.findById uuid with
    | none => .null
    | some r => if readable ambient r then .row r else .failed
  else .failed

section Outcomes

variable {surface : Surface E} {db : Backend E} {ctx : Option Ability} {ambient : Ambient}
  {id : String} {t : Table E}

/-- The answer of `access` and the outcome it leads to. -/
theorem access_cases (ambient : Ambient) (uuid : Uuid) (t : Table E) :
    (∃ e, CrudService.access ambient .read uuid t = .error e ∧
        loadOutcome ambient uuid t = .failed) ∨
      (CrudService.access ambient .read uuid t = .ok .missing ∧
        loadOutcome ambient uuid t = .null) ∨
      (CrudService.access ambient .read uuid t = .ok .denied ∧
        loadOutcome ambient uuid t = .failed) ∨
      ∃ r, CrudService.access ambient .read uuid t = .ok (.found r) ∧
        loadOutcome ambient uuid t = .row r := by
  unfold loadOutcome
  cases hexec : ambient.executor with
  | false =>
    refine Or.inl ?_
    unfold CrudService.access Repo.conn
    rw [hexec]
    exact ⟨_, rfl, rfl⟩
  | true =>
    have haccess : CrudService.access ambient .read uuid t =
        match t.findById uuid with
        | none => .ok .missing
        | some r => if readable ambient r then .ok (.found r) else .ok .denied := by
      unfold CrudService.access Repo.conn
      rw [hexec]
      rfl
    rw [haccess]
    refine Or.inr ?_
    cases t.findById uuid with
    | none => exact Or.inl ⟨rfl, rfl⟩
    | some r =>
      refine Or.inr ?_
      cases hr : readable ambient r with
      | false => exact Or.inl (by simp [hr])
      | true => exact Or.inr ⟨r, by simp [hr]⟩

/-- The generated query fails on a bad id, and else loads. -/
theorem getOutcome_eq :
    getOutcome surface db ctx ambient id t =
      match parseId surface id with
      | .error _ => .failed
      | .ok uuid => loadOutcome ambient uuid t := by
  unfold getOutcome resolve bindRow
  simp only [Bind.bind, Except.bind]
  cases parseId surface id with
  | error e => rfl
  | ok uuid =>
    rcases access_cases ambient uuid t with ⟨e, h, ho⟩ | ⟨h, ho⟩ | ⟨h, ho⟩ | ⟨r, h, ho⟩
    · simp only [h, ho, Except.mapError]
    · simp only [h, ho, Except.mapError]
      rfl
    · simp only [h, ho, Except.mapError]
    · simp only [h, ho, Except.mapError]
      rfl

/-- `bind` fails without an ability in the context, and else does the same. -/
theorem bindOutcome_eq :
    bindOutcome surface ctx ambient id t =
      match ctx, parseId surface id with
      | none, _ => .failed
      | some _, .error _ => .failed
      | some _, .ok uuid => loadOutcome ambient uuid t := by
  unfold bindOutcome bind
  simp only [Bind.bind, Except.bind]
  cases ctx with
  | none => rfl
  | some ability =>
    cases parseId surface id with
    | error e => rfl
    | ok uuid =>
      rcases access_cases ambient uuid t with ⟨e, h, ho⟩ | ⟨h, ho⟩ | ⟨h, ho⟩ | ⟨r, h, ho⟩
      · simp only [contextAbility, h, ho, Except.mapError]
        rfl
      · simp only [contextAbility, h, ho, Except.mapError]
        rfl
      · simp only [contextAbility, h, ho, Except.mapError]
        rfl
      · simp only [contextAbility, h, ho, Except.mapError]
        rfl

/-- A load fails without an executor, and on a row that may not be read. -/
theorem loadOutcome_eq_failed {uuid : Uuid} :
    loadOutcome ambient uuid t = .failed ↔
      ambient.executor = false ∨ ∃ r, t.findById uuid = some r ∧ readable ambient r = false := by
  unfold loadOutcome
  cases ambient.executor with
  | false => simp
  | true =>
    cases t.findById uuid with
    | none => simp
    | some r => cases hr : readable ambient r <;> simp [hr]

/-- Without an ability a load tells whether the row exists, and no more. -/
theorem loadOutcome_anonymous (h : ambient.ability = none) (uuid : Uuid) (t : Table E) :
    loadOutcome ambient uuid t =
      if ambient.executor && (t.findById uuid).isNone then .null else .failed := by
  unfold loadOutcome readable
  rw [h]
  cases ambient.executor <;> cases t.findById uuid <;> rfl

/-- **The two bindings agree** on a context, an id and a database state iff the context has an
ability, or the generated query fails all the same: the id is no UUID v7, there is no executor, or
the row exists and the ambient ability does not let it be read. And the outcomes of a caller without
an ability are the same in two database states iff the id or the executor fails it, or the states
agree on whether the row exists. -/
theorem get_agrees_with_bind_iff (surface : Surface E) (db : Backend E) (ctx : Option Ability)
    (ambient : Ambient) (id : String) :
    (∀ t : Table E, getOutcome surface db ctx ambient id t = bindOutcome surface ctx ambient id t ↔
      ctx.isSome = true ∨ ∀ uuid, parseId surface id = .ok uuid →
        ambient.executor = false ∨
          ∃ r, t.findById uuid = some r ∧ readable ambient r = false) ∧
    (ambient.ability = none → ∀ t t' : Table E,
      (getOutcome surface db ctx ambient id t = getOutcome surface db ctx ambient id t' ↔
        ∀ uuid, parseId surface id = .ok uuid →
          ambient.executor = false ∨
            (t.findById uuid).isNone = (t'.findById uuid).isNone)) := by
  constructor
  · intro t
    rw [getOutcome_eq, bindOutcome_eq]
    cases hid : parseId surface id with
    | error e => cases ctx <;> simp
    | ok uuid =>
      cases ctx with
      | none =>
        refine loadOutcome_eq_failed.trans ⟨fun h => Or.inr fun uuid' heq => ?_, ?_⟩
        · cases heq
          exact h
        · rintro (h | h)
          · cases h
          · exact h uuid rfl
      | some ability => simp
  · intro hability t t'
    rw [getOutcome_eq, getOutcome_eq]
    cases hid : parseId surface id with
    | error e => simp
    | ok uuid =>
      simp only [loadOutcome_anonymous hability, Except.ok.injEq, forall_eq']
      cases ambient.executor <;> cases (t.findById uuid).isNone <;>
        cases (t'.findById uuid).isNone <;> simp

end Outcomes

/-! ## A caller without an ability -/

/-- No ability in the context, none around the operation. -/
abbrev anonymous : Ambient := ⟨true, none⟩

theorem isSome_key_user (id org : Uuid) : (userEntity.key (user id org)).isSome = true := rfl

/-- One user. -/
def aliceOnly : Table userEntity := Table.single (user alice acme) (isSome_key_user alice acme)

/-- A caller of the organisation, its ability in the context and around the operation. -/
def tenant : Ability := buildAbility (tenantRules acme)

/-- The caller with an ability gets a user alike, and the caller without one fails alike with an id
that is none, whatever the table holds. -/
theorem outcomes_agree :
    getOutcome usersSurface usersDb (some tenant) ⟨true, some tenant⟩ (uuidText alice) aliceOnly =
        bindOutcome usersSurface (some tenant) ⟨true, some tenant⟩ (uuidText alice) aliceOnly ∧
      getOutcome usersSurface usersDb none anonymous "alice" aliceOnly =
        bindOutcome usersSurface none anonymous "alice" aliceOnly ∧
      getOutcome usersSurface usersDb none anonymous "alice" aliceOnly =
        getOutcome usersSurface usersDb none anonymous "alice" noUsers := by
  have hbad : ∀ uuid, parseId usersSurface "alice" ≠ .ok uuid := fun uuid h => by cases h
  have hagree := get_agrees_with_bind_iff usersSurface usersDb none anonymous "alice"
  have hknown := get_agrees_with_bind_iff usersSurface usersDb (some tenant) ⟨true, some tenant⟩
    (uuidText alice)
  exact ⟨(hknown.1 aliceOnly).mpr (Or.inl rfl),
    (hagree.1 aliceOnly).mpr (Or.inr fun uuid h => absurd h (hbad uuid)),
    (hagree.2 rfl aliceOnly noUsers).mpr fun uuid h => absurd h (hbad uuid)⟩

/-- With a valid id the generated query is `null` where `bind` fails, and tells the caller whether
the user exists. -/
theorem anonymous_get_tells :
    getOutcome usersSurface usersDb none anonymous (uuidText alice) noUsers = .null ∧
      bindOutcome usersSurface none anonymous (uuidText alice) noUsers = .failed ∧
      getOutcome usersSurface usersDb none anonymous (uuidText alice) aliceOnly = .failed ∧
      getOutcome usersSurface usersDb none anonymous (uuidText alice) noUsers ≠
        bindOutcome usersSurface none anonymous (uuidText alice) noUsers ∧
      getOutcome usersSurface usersDb none anonymous (uuidText alice) noUsers ≠
        getOutcome usersSurface usersDb none anonymous (uuidText alice) aliceOnly := by
  have hnull : getOutcome usersSurface usersDb none anonymous (uuidText alice) noUsers = .null := by
    rfl
  have hbind : bindOutcome usersSurface none anonymous (uuidText alice) noUsers = .failed := by
    rfl
  have hfailed : getOutcome usersSurface usersDb none anonymous (uuidText alice) aliceOnly =
      .failed := by rfl
  refine ⟨hnull, hbind, hfailed, fun h => ?_, fun h => ?_⟩
  · rw [hnull, hbind] at h
    cases h
  · rw [hnull, hfailed] at h
    cases h

end Nestrs.Crud
