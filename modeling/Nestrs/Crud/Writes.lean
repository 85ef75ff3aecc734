import Nestrs.Crud.Graphql
import Nestrs.Orm.DbContext

/-!
# The scope of generated writes

What the operations of `#[crud]` let a caller write. An update and a delete load their row and
check it against the caller's ability, and their statement carries the ability's condition next to
the key; so they touch rows the ability accepts, except that an update whose input sets the primary
key goes to another row, which only the condition guards. A create passes the class gate and
nothing else: the conditions of the rules that grant it are never looked at.

Results:
* `handle_wrote`, `resolve_wrote`: what an operation that succeeds has written, on each surface;
* `scoped_iff_allowed`: when that is in scope;
* **`write_scope`**: for every request that commits, on either surface, the rows changed are ones
  the caller's ability accepts iff its creates are.
-/

namespace Nestrs.Crud

open Nestrs.Lib Nestrs.Authz Nestrs.Orm Nestrs.Http

variable {σ : Schema} {E : Entity σ}

/-! ## The contract -/

/-- **The rows changed are in scope**: the ability on the request accepts each row inserted, each
row changed or removed as it was stored before, and without an ability there is none. -/
structure WriteScoped (attached : Option Ability) (t t' : Table E) : Prop where
  inserted : ∀ r ∈ t'.rows, (∀ s ∈ t.rows, E.key s ≠ E.key r) →
    ∃ ability, attached = some ability ∧ ability.can .create r = true
  changed : ∀ r ∈ t.rows, ∀ r' ∈ t'.rows, E.key r' = E.key r → r' ≠ r →
    ∃ ability, attached = some ability ∧ ability.can .update r = true
  removed : ∀ r ∈ t.rows, (∀ s ∈ t'.rows, E.key s ≠ E.key r) →
    ∃ ability, attached = some ability ∧ ability.can .delete r = true

/-- The condition: the row of a create passes the instance check; and where the input of an update
sends it from the row that was loaded and checked to one that only the ability's filter has kept,
that row passes the instance check too, or is not altered. -/
def Allowed {service : CrudService E} (db : Backend E) (attached : Option Ability)
    (write : Write service) (t : Table E) : Prop :=
  match write with
  | .create input => ∀ row, db.fill (service.intoActiveModel input) t = .ok row →
      ∃ ability, attached = some ability ∧ ability.can .create row = true
  | .update id input => ∀ ability model r, attached = some ability →
      t.findById id = some model → ability.can .update model = true → r ∈ t.rows →
      E.key r = (service.applyTo input (intoActiveModel model)).key →
      (ability.conditionFor .update E.type).Keeps db.sql r.get →
      (service.applyTo input (intoActiveModel model)).overwrite r ≠ r →
      ability.can .update r = true
  | _ => True

section Scoped

variable {attached : Option Ability} {t t' : Table E} {db : Backend E}

theorem WriteScoped.refl (attached : Option Ability) (t : Table E) : WriteScoped attached t t where
  inserted r hr hnew := absurd rfl (hnew r hr)
  changed _ hr _ hr' hk hne := absurd (Table.eq_of_key hr' hr hk) hne
  removed r hr hgone := absurd rfl (hgone r hr)

/-- Inserting a row is in scope iff the row is. -/
theorem scoped_insert_iff {row : E.Row} (hrows : t'.rows = t.rows ++ [row])
    (hnew : E.key row ∉ t.rows.map E.key) :
    WriteScoped attached t t' ↔
      ∃ ability, attached = some ability ∧ ability.can .create row = true := by
  have hfresh : ∀ s ∈ t.rows, E.key s ≠ E.key row := fun s hs hk =>
    hnew (hk ▸ List.mem_map_of_mem hs)
  constructor
  · intro h
    exact h.inserted row (by rw [hrows]; simp) hfresh
  · intro hcan
    refine ⟨fun r hr hnew' => ?_, fun r hr r' hr' hk hne => ?_, fun r hr hgone => ?_⟩
    · rw [hrows, List.mem_append, List.mem_singleton] at hr
      rcases hr with hr | rfl
      · exact absurd rfl (hnew' r hr)
      · exact hcan
    · rw [hrows, List.mem_append, List.mem_singleton] at hr'
      rcases hr' with hr' | rfl
      · exact absurd (Table.eq_of_key hr' hr hk) hne
      · exact absurd hk.symm (hfresh r hr)
    · exact absurd rfl (hgone r (by rw [hrows]; exact List.mem_append_left _ hr))

/-- Rewriting some rows in place is in scope iff each row it alters is. -/
theorem scoped_map_iff {f : E.Row → E.Row} (hf : ∀ r, E.key (f r) = E.key r)
    (hrows : t'.rows = t.rows.map f) :
    WriteScoped attached t t' ↔ ∀ r ∈ t.rows, f r ≠ r →
      ∃ ability, attached = some ability ∧ ability.can .update r = true := by
  have hmem : ∀ r ∈ t.rows, f r ∈ t'.rows := fun r hr => by
    rw [hrows]
    exact List.mem_map_of_mem hr
  constructor
  · intro h r hr hne
    exact h.changed r hr (f r) (hmem r hr) (hf r) hne
  · intro hcan
    refine ⟨fun r hr hnew => ?_, fun r hr r' hr' hk hne => ?_, fun r hr hgone => ?_⟩
    · rw [hrows] at hr
      obtain ⟨r₀, hr₀, rfl⟩ := List.mem_map.mp hr
      exact absurd (hf r₀).symm (hnew r₀ hr₀)
    · rw [hrows] at hr'
      obtain ⟨r₀, hr₀, rfl⟩ := List.mem_map.mp hr'
      rw [hf] at hk
      obtain rfl := Table.eq_of_key hr₀ hr hk
      exact hcan r₀ hr₀ hne
    · exact absurd (hf r) (hgone (f r) (hmem r hr))

/-- Removing rows the ability may delete is in scope. -/
theorem scoped_filter {p : E.Row → Bool} (hrows : t'.rows = t.rows.filter p)
    (hcan : ∀ r ∈ t.rows, p r = false →
      ∃ ability, attached = some ability ∧ ability.can .delete r = true) :
    WriteScoped attached t t' := by
  have hsub : ∀ r ∈ t'.rows, r ∈ t.rows := fun r hr => by
    rw [hrows] at hr
    exact List.mem_of_mem_filter hr
  refine ⟨fun r hr hnew => absurd rfl (hnew r (hsub r hr)), fun r hr r' hr' hk hne => ?_,
    fun r hr hgone => ?_⟩
  · exact absurd (Table.eq_of_key (hsub r' hr') hr hk) hne
  · refine hcan r hr ?_
    by_contra hp
    refine hgone r ?_ rfl
    rw [hrows]
    exact List.mem_filter.mpr ⟨hr, by simpa using hp⟩

/-- **When an authorized write is in scope.** The ambient ability, if there is one, is the one on
the request. -/
theorem scoped_iff_allowed {service : CrudService E} {ambient : Ambient}
    (hambient : ∀ ability, ambient.ability = some ability → attached = some ability)
    {write : Write service} (h : Wrote service ambient db t t' write) :
    WriteScoped attached t t' ↔ Allowed db attached write t := by
  cases h with
  | nothing h =>
    subst h
    exact ⟨fun _ => trivial, fun _ => .refl attached _⟩
  | created row h =>
    obtain ⟨hfill, hnew, hrows⟩ := CrudService.create_spec h
    rw [scoped_insert_iff hrows hnew]
    refine ⟨fun hcan row' hfill' => ?_, fun hallowed => hallowed row hfill⟩
    rw [hfill] at hfill'
    cases hfill'
    exact hcan
  | noUpdate hmissing h =>
    subst h
    refine ⟨fun _ ability model r _ hfind => ?_, fun _ => .refl attached _⟩
    rw [hmissing] at hfind
    exact nomatch hfind
  | updated model row hfound h =>
    rename_i id input
    obtain ⟨-, hfind, ability, habil, hcan⟩ := CrudService.access_eq_found.mp hfound
    have hatt := hambient ability habil
    rcases CrudService.update_spec h with ⟨hnoop, rfl⟩ | ⟨key, hkey, hrows⟩
    · refine ⟨fun _ ability' model' r _ hfind' _ _ _ _ hne => ?_, fun _ => .refl attached _⟩
      rw [hfind] at hfind'
      cases hfind'
      exact absurd (ActiveModel.overwrite_of_isNoop hnoop r) hne
    · have hscope : scopeFor ambient .update E.type = ability.conditionFor .update E.type := by
        unfold scopeFor
        rw [habil]
      have haddr : ∀ r : E.Row,
          Table.addressed db.sql (scopeFor ambient .update E.type) key r = true ↔
            E.key r = some key ∧ (ability.conditionFor .update E.type).Keeps db.sql r.get := by
        intro r
        rw [hscope]
        simp [Table.addressed]
      rw [scoped_map_iff (fun r => ?_) hrows]
      · constructor
        · intro hall ability' model' r hatt' hfind' _ hr hk hkeeps hne
          rw [hfind] at hfind'
          cases hfind'
          rw [hatt] at hatt'
          cases hatt'
          have hr' := (haddr r).mpr ⟨hk.trans hkey, hkeeps⟩
          obtain ⟨a, ha, hacan⟩ := hall r hr (by rw [if_pos hr']; exact hne)
          rw [hatt] at ha
          cases ha
          exact hacan
        · intro hallowed r hr hne
          by_cases hr' : Table.addressed db.sql (scopeFor ambient .update E.type) key r = true
          · rw [if_pos hr'] at hne
            obtain ⟨hk, hkeeps⟩ := (haddr r).mp hr'
            exact ⟨ability, hatt, hallowed ability model r hatt hfind hcan hr
              (hk.trans hkey.symm) hkeeps hne⟩
          · rw [if_neg hr'] at hne
            exact absurd rfl hne
      · split
        · exact ActiveModel.key_overwrite _ r
        · rfl
  | noDelete h =>
    subst h
    exact ⟨fun _ => trivial, fun _ => .refl attached _⟩
  | deleted model hfound h =>
    refine ⟨fun _ => trivial, fun _ => ?_⟩
    obtain ⟨-, hfind, ability, habil, hcan⟩ := CrudService.access_eq_found.mp hfound
    obtain ⟨key, hkey, hrows⟩ := CrudService.delete_spec h
    refine scoped_filter hrows fun r hr hp => ⟨ability, hambient ability habil, ?_⟩
    have hk : E.key r = some key := by
      simp only [Table.addressed, Bool.not_eq_false', Bool.and_eq_true, decide_eq_true_eq] at hp
      exact hp.1
    rw [Table.eq_of_key hr (Table.mem_of_findById hfind).1 (hk.trans hkey.symm)]
    exact hcan

/-- An update that leaves the primary key meets the condition. -/
theorem allowed_of_key {service : CrudService E} {id : Uuid} {input : service.Update}
    (h : ∀ model, (service.applyTo input (intoActiveModel model)).key = E.key model) :
    Allowed db attached (.update id input) t := by
  intro ability model r _ hfind hcan hr hk _ _
  rw [h] at hk
  rw [Table.eq_of_key hr (Table.mem_of_findById hfind).1 hk]
  exact hcan

/-- So does any update under an ability built from typed statements. -/
theorem allowed_of_typed {service : CrudService E} {id : Uuid} {input : service.Update}
    {specs : List RuleSpec} (hw : ∀ s ∈ specs, s.WellTyped σ)
    (hatt : attached = some (buildAbility specs)) :
    Allowed db attached (.update id input) t := by
  intro ability model r hatt' _ _ _ _ hkeeps _
  rw [hatt] at hatt'
  cases hatt'
  exact can_of_keeps hw hkeeps

end Scoped

/-! ## What an operation that succeeds has written -/

section Wrote

variable {surface : Surface E} {db : Backend E} {ambient : Ambient} {t t' : Table E}

/-- The write a request asks for. -/
def RestOp.write : RestOp surface → Write surface.service
  | create (.ok input) => .create input
  | update (.ok id) (.ok input) => .update id input
  | delete (.ok id) => .delete id
  | _ => .none

/-- The write a selection asks for. -/
def GraphqlOp.write : GraphqlOp surface → Write surface.service
  | list | get _ => .none
  | create input => .create input
  | update id input =>
    match parseId surface id with
    | .ok id => .update id input
    | .error _ => .none
  | delete id =>
    match parseId surface id with
    | .ok id => .delete id
    | .error _ => .none

/-- What a REST operation that succeeds has written. -/
theorem handle_wrote {ability : Option Ability} {op : RestOp surface}
    {resp : Response (Payload E)} (h : handle surface db ability ambient op t = .ok (resp, t')) :
    Wrote surface.service ambient db t t' op.write := by
  unfold handle at h
  rw [bind_eq_ok] at h
  obtain ⟨-, -, h⟩ := h
  cases op with
  | list =>
    simp only at h
    rw [bind_eq_ok] at h
    obtain ⟨rows, -, h⟩ := h
    cases h
    exact .nothing rfl
  | page query =>
    simp only at h
    rw [bind_eq_ok] at h
    obtain ⟨params, -, h⟩ := h
    rw [bind_eq_ok] at h
    obtain ⟨p, -, h⟩ := h
    cases h
    exact .nothing rfl
  | get id =>
    simp only at h
    rw [bind_eq_ok] at h
    obtain ⟨id, -, h⟩ := h
    obtain ⟨model, -, -, h⟩ := withAccess_eq_ok h
    cases h
    exact .nothing rfl
  | create body =>
    simp only at h
    rw [bind_eq_ok] at h
    obtain ⟨input, rfl, h⟩ := h
    rw [bind_eq_ok] at h
    obtain ⟨⟨row, t₁⟩, hcreate, h⟩ := h
    rw [mapError_eq_ok] at hcreate
    cases h
    exact .created row hcreate
  | update id body =>
    simp only at h
    rw [bind_eq_ok] at h
    obtain ⟨id, rfl, h⟩ := h
    rw [bind_eq_ok] at h
    obtain ⟨input, rfl, h⟩ := h
    obtain ⟨model, -, hfound, h⟩ := withAccess_eq_ok h
    rw [bind_eq_ok] at h
    obtain ⟨⟨row, t₁⟩, hupdate, h⟩ := h
    rw [mapError_eq_ok] at hupdate
    cases h
    exact .updated model row hfound hupdate
  | delete id =>
    simp only at h
    rw [bind_eq_ok] at h
    obtain ⟨id, rfl, h⟩ := h
    obtain ⟨model, -, hfound, h⟩ := withAccess_eq_ok h
    rw [bind_eq_ok] at h
    obtain ⟨t₁, hdelete, h⟩ := h
    rw [mapError_eq_ok] at hdelete
    cases h
    exact .deleted model hfound hdelete

/-- What a GraphQL operation that succeeds has written. -/
theorem resolve_wrote {ctx : Option Ability} {op : GraphqlOp surface} {data : GraphqlData E}
    (h : resolve surface db ctx ambient op t = .ok (data, t')) :
    Wrote surface.service ambient db t t' op.write := by
  unfold resolve at h
  cases op with
  | list =>
    simp only at h
    rw [bind_eq_ok] at h
    obtain ⟨-, -, h⟩ := h
    rw [bind_eq_ok] at h
    obtain ⟨rows, -, h⟩ := h
    cases h
    exact .nothing rfl
  | get id =>
    obtain ⟨uuid, -, ⟨-, h⟩ | ⟨model, -, h⟩⟩ := bindRow_eq_ok h
    · cases h
      exact .nothing rfl
    · cases h
      exact .nothing rfl
  | create input =>
    simp only at h
    rw [bind_eq_ok] at h
    obtain ⟨-, -, h⟩ := h
    rw [bind_eq_ok] at h
    obtain ⟨⟨row, t₁⟩, hcreate, h⟩ := h
    rw [mapError_eq_ok] at hcreate
    cases h
    exact .created row hcreate
  | update id input =>
    obtain ⟨uuid, hid, ⟨hmissing, h⟩ | ⟨model, hfound, h⟩⟩ := bindRow_eq_ok h
    · cases h
      rw [GraphqlOp.write, hid]
      exact .noUpdate (CrudService.access_eq_missing hmissing) rfl
    · rw [bind_eq_ok] at h
      obtain ⟨⟨row, t₁⟩, hupdate, h⟩ := h
      rw [mapError_eq_ok] at hupdate
      cases h
      rw [GraphqlOp.write, hid]
      exact .updated model row hfound hupdate
  | delete id =>
    obtain ⟨uuid, hid, ⟨-, h⟩ | ⟨model, hfound, h⟩⟩ := bindRow_eq_ok h
    · cases h
      rw [GraphqlOp.write, hid]
      exact .noDelete rfl
    · rw [bind_eq_ok] at h
      obtain ⟨t₁, hdelete, h⟩ := h
      rw [mapError_eq_ok] at hdelete
      cases h
      rw [GraphqlOp.write, hid]
      exact .deleted model hfound hdelete

/-- A request with a safe method asks for no write. -/
theorem write_of_isSafe {op : RestOp surface} (h : isSafe op.method = true) :
    op.write = .none := by
  cases op with
  | list => rfl
  | page query => rfl
  | get id => rfl
  | create body => exact nomatch h
  | update id body => exact nomatch h
  | delete id => exact nomatch h

theorem eq_of_wrote_none (h : Wrote surface.service ambient db t t' .none) : t' = t := by
  cases h with
  | nothing h => exact h

/-- Without an ambient ability only a create writes. -/
theorem eq_of_wrote_anonymous {executor : Bool} {write : Write surface.service}
    (h : Wrote surface.service ⟨executor, none⟩ db t t' write) :
    t' = t ∨ ∃ input, write = .create input := by
  cases h with
  | nothing h => exact Or.inl h
  | created row h => exact Or.inr ⟨_, rfl⟩
  | noUpdate hmissing h => exact Or.inl h
  | updated model row hfound h =>
    obtain ⟨-, -, ability, hability, -⟩ := CrudService.access_eq_found.mp hfound
    exact nomatch hability
  | noDelete h => exact Or.inl h
  | deleted model hfound h =>
    obtain ⟨-, -, ability, hability, -⟩ := CrudService.access_eq_found.mp hfound
    exact nomatch hability

theorem eq_create_of_write {op : GraphqlOp surface} {input : surface.service.Create}
    (h : op.write = .create input) : op = .create input := by
  cases op with
  | list => exact nomatch h
  | get id => exact nomatch h
  | create input' =>
    cases h
    rfl
  | update id input' =>
    rw [GraphqlOp.write] at h
    split at h
    · exact nomatch h
    · exact nomatch h
  | delete id =>
    rw [GraphqlOp.write] at h
    split at h
    · exact nomatch h
    · exact nomatch h

end Wrote

/-! ## Whole requests -/

section Request

variable {ρ : Type} (surface : Surface E) (db : Backend E) (txn : Txn) (executor : Bool)
  (guards : List (Guard ρ)) (opGuard : Option (OperationGuard ρ)) (req : Request ρ)

/-- A request to a generated REST operation, under `DbContext`. -/
def serveRest (op : RestOp surface) (t : Table E) :
    Except PoemError (Response (Payload E)) × Table E :=
  intercept txn op.method (route surface db executor guards req op) t

/-- A request to the GraphQL endpoint, which is routed for `POST`, under `DbContext`. -/
def serveGraphql (batch : Except PoemError (List (GraphqlOp surface))) (t : Table E) :
    Except PoemError (Response (List (Except GraphqlError (GraphqlData E)))) × Table E :=
  intercept txn .post (endpoint surface db executor guards opGuard req batch) t

/-- The ability on a request when its operation runs. -/
def restAbility : Option Ability := (runGuards guards req).1.ability

/-- The ability in the context of a request's operations. -/
def graphqlAbility : Option Ability := (scopeOf opGuard (runGuards guards req).1).1.ability

/-- The task-locals a request's GraphQL operations run under. -/
def graphqlAmbient : Ambient := ⟨executor, (scopeOf opGuard (runGuards guards req).1).2⟩

/-- **The write contract of REST**: a request that is refused, not committed or without ability
leaves the table as it was; one that is committed has written in scope iff `Allowed`. -/
structure RestWrites (op : RestOp surface) (t : Table E) : Prop where
  refused : ∀ refusal, (runGuards guards req).2 = .error refusal →
    (serveRest surface db txn executor guards req op t).2 = t
  uncommitted : shouldCommit (serveRest surface db txn executor guards req op t).1 = false →
    (serveRest surface db txn executor guards req op t).2 = t
  anonymous : restAbility guards req = none →
    (serveRest surface db txn executor guards req op t).2 = t
  committed : (runGuards guards req).2 = .ok () →
    shouldCommit (serveRest surface db txn executor guards req op t).1 = true →
    (WriteScoped (restAbility guards req) t
        (serveRest surface db txn executor guards req op t).2 ↔
      Allowed db (restAbility guards req) op.write t)

/-- **The write contract of GraphQL**: the same, for every operation of the batch and the table it
starts from, which the operations before it have left. -/
structure GraphqlWrites (batch : Except PoemError (List (GraphqlOp surface))) (t : Table E) :
    Prop where
  refused : ∀ refusal, (runGuards guards req).2 = .error refusal →
    (serveGraphql surface db txn executor guards opGuard req batch t).2 = t
  uncommitted :
    shouldCommit (serveGraphql surface db txn executor guards opGuard req batch t).1 = false →
    (serveGraphql surface db txn executor guards opGuard req batch t).2 = t
  anonymous : graphqlAbility guards opGuard req = none →
    (serveGraphql surface db txn executor guards opGuard req batch t).2 = t
  committed : (runGuards guards req).2 = .ok () →
    shouldCommit (serveGraphql surface db txn executor guards opGuard req batch t).1 = true →
    ∃ ops, batch = .ok ops ∧ ∀ pre op post, ops = pre ++ op :: post →
      let ctx := graphqlAbility guards opGuard req
      let ambient := graphqlAmbient executor guards opGuard req
      let s := (execute surface db ctx ambient pre t).2
      let s' := tableAfter surface db ctx ambient op s
      (serveGraphql surface db txn executor guards opGuard req batch t).2 =
          (execute surface db ctx ambient post s').2 ∧
        ((resolve surface db ctx ambient op s).isOk = false → s' = s) ∧
        ((resolve surface db ctx ambient op s).isOk = true →
          (WriteScoped ctx s s' ↔ Allowed db ctx op.write s))

variable {surface db txn executor guards opGuard req} {t : Table E}

theorem route_of_refused {refusal : Refusal} (h : (runGuards guards req).2 = .error refusal)
    (op : RestOp surface) :
    route surface db executor guards req op t =
      (.ok ⟨refusal.status, .text refusal.message⟩, t) := by
  unfold route
  rcases hrun : runGuards guards req with ⟨req₁, result⟩
  rw [hrun] at h
  simp only at h
  subst h
  rfl

/-- A request whose guards pass has run its operation, or failed and written nothing. -/
theorem route_of_passed (h : (runGuards guards req).2 = .ok ()) (op : RestOp surface) :
    (shouldCommit (route surface db executor guards req op t).1 = false ∧
        (route surface db executor guards req op t).2 = t) ∨
      ∃ resp, handle surface db (restAbility guards req) ⟨executor, restAbility guards req⟩ op t =
        .ok (resp, (route surface db executor guards req op t).2) := by
  unfold route restAbility
  rcases hrun : runGuards guards req with ⟨req₁, result⟩
  rw [hrun] at h
  simp only at h
  subst h
  simp only
  cases hshaped : shaped surface db executor req₁ op t with
  | error e => exact Or.inl ⟨rfl, rfl⟩
  | ok out =>
    refine Or.inr ?_
    unfold shaped at hshaped
    cases hability : req₁.ability with
    | none =>
      rw [hability] at hshaped
      exact ⟨out.1, hshaped⟩
    | some ability =>
      rw [hability] at hshaped
      simp only at hshaped
      rw [bind_eq_ok] at hshaped
      obtain ⟨⟨resp, t'⟩, hhandle, hout⟩ := hshaped
      cases hout
      exact ⟨resp, hhandle⟩

/-- A REST request without an ability writes nothing. -/
theorem route_of_anonymous (h : restAbility guards req = none) (op : RestOp surface) :
    (route surface db executor guards req op t).2 = t := by
  cases hrun : (runGuards guards req).2 with
  | error refusal => rw [route_of_refused hrun op]
  | ok u =>
    rcases route_of_passed hrun op with ⟨-, hs⟩ | ⟨resp, hhandle⟩
    · exact hs
    · rw [h] at hhandle
      exact nomatch hhandle

/-- A REST request with a safe method writes nothing. -/
theorem route_of_isSafe {op : RestOp surface} (h : isSafe op.method = true) :
    (route surface db executor guards req op t).2 = t := by
  cases hrun : (runGuards guards req).2 with
  | error refusal => rw [route_of_refused hrun op]
  | ok u =>
    rcases route_of_passed hrun op with ⟨-, hs⟩ | ⟨resp, hhandle⟩
    · exact hs
    · have hwrote := handle_wrote hhandle
      rw [write_of_isSafe h] at hwrote
      exact eq_of_wrote_none hwrote

theorem restWrites (op : RestOp surface) (t : Table E) :
    RestWrites surface db txn executor guards req op t where
  refused refusal h := intercept_of_unchanged (by rw [route_of_refused h op])
  uncommitted h := by
    unfold serveRest at h ⊢
    rcases intercept_cases txn op.method (route surface db executor guards req op) t with
      ⟨heq, hsafe | hyes⟩ | ⟨-, hs⟩
    · rw [heq]
      exact route_of_isSafe hsafe
    · rw [heq, hyes] at h
      exact absurd h.symm Bool.false_ne_true
    · exact hs
  anonymous h := intercept_of_unchanged (route_of_anonymous h op)
  committed hrun h := by
    have hout : serveRest surface db txn executor guards req op t =
        route surface db executor guards req op t := intercept_of_commit h
    rw [hout] at h ⊢
    rcases route_of_passed hrun op with ⟨hno, -⟩ | ⟨resp, hhandle⟩
    · rw [hno] at h
      exact absurd h Bool.false_ne_true
    · exact scoped_iff_allowed (fun _ hability => hability) (handle_wrote hhandle)

/-! ## Batches -/

theorem endpoint_of_refused {refusal : Refusal} (h : (runGuards guards req).2 = .error refusal)
    (batch : Except PoemError (List (GraphqlOp surface))) :
    endpoint surface db executor guards opGuard req batch t =
      (.ok ⟨refusal.status, .text refusal.message⟩, t) := by
  unfold endpoint
  rcases hrun : runGuards guards req with ⟨req₁, result⟩
  rw [hrun] at h
  simp only at h
  subst h
  rfl

/-- A batch whose guards pass does not parse, or is answered with 200 after all its operations. -/
theorem endpoint_of_passed (h : (runGuards guards req).2 = .ok ())
    (batch : Except PoemError (List (GraphqlOp surface))) :
    (∃ e, batch = .error e ∧
        endpoint surface db executor guards opGuard req batch t = (.error e, t)) ∨
      ∃ ops, batch = .ok ops ∧
        endpoint surface db executor guards opGuard req batch t =
          (.ok ⟨200, .json (execute surface db (graphqlAbility guards opGuard req)
              (graphqlAmbient executor guards opGuard req) ops t).1⟩,
            (execute surface db (graphqlAbility guards opGuard req)
              (graphqlAmbient executor guards opGuard req) ops t).2) := by
  unfold endpoint graphqlAbility graphqlAmbient
  rcases hrun : runGuards guards req with ⟨req₁, result⟩
  rw [hrun] at h
  simp only at h
  subst h
  cases batch with
  | error e => exact Or.inl ⟨e, rfl, rfl⟩
  | ok ops => exact Or.inr ⟨ops, rfl, rfl⟩

section Batch

variable {ctx : Option Ability} {ambient : Ambient}

/-- A batch runs its operations one after the other. -/
theorem execute_append (pre post : List (GraphqlOp surface)) (t : Table E) :
    (execute surface db ctx ambient (pre ++ post) t).2 =
      (execute surface db ctx ambient post (execute surface db ctx ambient pre t).2).2 := by
  induction pre generalizing t with
  | nil => rfl
  | cons op pre ih => exact ih (tableAfter surface db ctx ambient op t)

theorem tableAfter_of_error {op : GraphqlOp surface}
    (h : (resolve surface db ctx ambient op t).isOk = false) :
    tableAfter surface db ctx ambient op t = t := by
  unfold tableAfter
  cases hres : resolve surface db ctx ambient op t with
  | error e => rfl
  | ok out =>
    rw [hres] at h
    exact absurd h.symm Bool.false_ne_true

/-- An operation that succeeds has written in scope iff `Allowed`. -/
theorem tableAfter_scoped_iff
    (hambient : ∀ ability, ambient.ability = some ability → ctx = some ability)
    {op : GraphqlOp surface} (h : (resolve surface db ctx ambient op t).isOk = true) :
    WriteScoped ctx t (tableAfter surface db ctx ambient op t) ↔ Allowed db ctx op.write t := by
  obtain ⟨⟨data, t'⟩, hres⟩ := isOk_iff.mp h
  have hafter : tableAfter surface db ctx ambient op t = t' := by
    unfold tableAfter
    rw [hres]
  rw [hafter]
  exact scoped_iff_allowed hambient (resolve_wrote hres)

/-- Without an ability no operation writes. -/
theorem tableAfter_of_anonymous (op : GraphqlOp surface) (t : Table E) :
    tableAfter surface db none ⟨executor, none⟩ op t = t := by
  unfold tableAfter
  split
  · rename_i data t' hres
    rcases eq_of_wrote_anonymous (resolve_wrote hres) with h | ⟨input, h⟩
    · exact h
    · -- the gate of a create needs an ability
      rw [eq_create_of_write h] at hres
      exact nomatch hres
  · rfl

theorem execute_of_anonymous (ops : List (GraphqlOp surface)) (t : Table E) :
    (execute surface db none ⟨executor, none⟩ ops t).2 = t := by
  induction ops generalizing t with
  | nil => rfl
  | cons op ops ih => exact (ih _).trans (tableAfter_of_anonymous op t)

end Batch

theorem graphqlAmbient_caller {ability : Ability}
    (h : (graphqlAmbient executor guards opGuard req).ability = some ability) :
    graphqlAbility guards opGuard req = some ability :=
  scopeOf_caller opGuard (runGuards guards req).1 h

theorem endpoint_of_anonymous (h : graphqlAbility guards opGuard req = none)
    (batch : Except PoemError (List (GraphqlOp surface))) :
    (endpoint surface db executor guards opGuard req batch t).2 = t := by
  cases hrun : (runGuards guards req).2 with
  | error refusal => rw [endpoint_of_refused hrun batch]
  | ok u =>
    rcases endpoint_of_passed hrun batch with ⟨e, -, heq⟩ | ⟨ops, -, heq⟩
    · rw [heq]
    · have hambient : graphqlAmbient executor guards opGuard req = ⟨executor, none⟩ := by
        cases hability : (graphqlAmbient executor guards opGuard req).ability with
        | none => exact congrArg (Ambient.mk executor) hability
        | some ability =>
          rw [graphqlAmbient_caller hability] at h
          exact nomatch h
      rw [heq, h, hambient]
      exact execute_of_anonymous ops t

theorem graphqlWrites (batch : Except PoemError (List (GraphqlOp surface))) (t : Table E) :
    GraphqlWrites surface db txn executor guards opGuard req batch t where
  refused refusal h := intercept_of_unchanged (by rw [endpoint_of_refused h batch])
  uncommitted h := by
    unfold serveGraphql at h ⊢
    rcases intercept_cases txn .post (endpoint surface db executor guards opGuard req batch) t with
      ⟨heq, -⟩ | ⟨-, hs⟩
    · rw [heq] at h ⊢
      cases hrun : (runGuards guards req).2 with
      | error refusal => rw [endpoint_of_refused hrun batch]
      | ok u =>
        rcases endpoint_of_passed hrun batch with ⟨e, -, hend⟩ | ⟨ops, -, hend⟩
        · rw [hend]
        · rw [hend] at h
          exact nomatch h
    · exact hs
  anonymous h := intercept_of_unchanged (endpoint_of_anonymous h batch)
  committed hrun h := by
    have hout : serveGraphql surface db txn executor guards opGuard req batch t =
        endpoint surface db executor guards opGuard req batch t := intercept_of_commit h
    rw [hout] at h ⊢
    rcases endpoint_of_passed hrun batch with ⟨e, -, hend⟩ | ⟨ops, hbatch, hend⟩
    · rw [hend] at h
      exact nomatch h
    · refine ⟨ops, hbatch, ?_⟩
      rintro pre op post rfl
      refine ⟨?_, tableAfter_of_error,
        tableAfter_scoped_iff fun ability => graphqlAmbient_caller⟩
      rw [hend, execute_append]
      rfl

end Request

/-- **The scope of generated writes.** Whatever the guards attach, the database decides and the
transaction does, on either surface: a request that is refused, not committed or without an ability
changes no row; and what a committed one has written is in scope iff its write is `Allowed`, that
is, iff the row a create inserts passes the instance check and an update that its input sends to
another row goes to one that does. -/
theorem write_scope {ρ : Type} (surface : Surface E) (db : Backend E) (txn : Txn) (executor : Bool)
    (guards : List (Guard ρ)) (opGuard : Option (OperationGuard ρ)) (req : Request ρ)
    (t : Table E) :
    (∀ op, RestWrites surface db txn executor guards req op t) ∧
      ∀ batch, GraphqlWrites surface db txn executor guards opGuard req batch t :=
  ⟨fun op => restWrites op t, fun batch => graphqlWrites batch t⟩

/-! ## A tenant's policy

The policy of a tenant: a caller may create, read and update the users of its own organisation. -/

/-- `user::Entity`: every column is a `Uuid`. -/
def userEntity : Entity fun _ _ => .uuid where
  type := 0
  tableName := "user"
  columns := ["id", "org_id"]
  pk := "id"
  uuid := rfl

def acme : Uuid := 0xac3e
def globex : Uuid := 0x910b
def alice : Uuid := 0x00000000000070008000000000000001

/-- A user of an organisation. -/
def user (id org : Uuid) : userEntity.Row where
  get c := .uuid (some (if c = "id" then id else org))
  typed _ := rfl

/-- The texts of the ids. -/
def uuidTexts : List (Uuid × String) :=
  [(acme, "00000000-0000-0000-0000-00000000ac3e"),
    (globex, "00000000-0000-0000-0000-00000000910b"),
    (alice, "00000000-0000-7000-8000-000000000001")]

def uuidText (id : Uuid) : String := (uuidTexts.lookup id).getD ""

def parseUuidText (s : String) : Except String Uuid :=
  match uuidTexts.find? fun entry => entry.2 = s with
  | some entry => .ok entry.1
  | none => .error "invalid length"

/-- A row as JSON, and back. -/
def userJson (r : userEntity.Row) : Json :=
  let text := fun c => match r.get c with
    | .uuid (some id) => Json.string (uuidText id)
    | _ => Json.null
  .object [("id", text "id"), ("org_id", text "org_id")]

def parseUserJson : Json → Option userEntity.Row
  | .object [("id", .string id), ("org_id", .string org)] =>
    match parseUuidText id, parseUuidText org with
    | .ok id, .ok org => some (user id org)
    | _, _ => none
  | _ => none

/-- The service of users, whose inputs name the organisation. A new user gets alice's id. -/
def usersService : CrudService userEntity where
  Create := Uuid
  Update := Uuid
  intoActiveModel org := {
    get := fun c => .set (.uuid (some (if c = "id" then alice else org)))
    typed := fun _ _ h => by
      cases h
      rfl }
  applyTo org active := {
    get := fun c => if c = "org_id" then .set (.uuid (some org)) else active.get c
    typed := fun c v h => by
      split at h
      · cases h
        rfl
      · exact active.typed c v h }

def usersSurface : Surface userEntity where
  service := usersService
  output := userJson
  deserialize := parseUserJson
  serialize r := some (userJson r)
  parseUuid := parseUuidText

/-- A database that takes every row, with `NULL` for what is not set. -/
def usersDb : Backend userEntity where
  sql := Sql.strict
  fill active _ := .ok {
    get := fun c => ((active.get c).value).getD (.uuid none)
    typed := fun c => by
      cases h : (active.get c).value with
      | none => rfl
      | some v => exact active.typed c v h }
  check _ := none

/-- The rules of a caller of an organisation. -/
def tenantRules (org : Uuid) : List RuleSpec :=
  [(RuleSpec.can .create 0).when (.eq "org_id" (.uuid (some org))),
    (RuleSpec.can .read 0).when (.eq "org_id" (.uuid (some org)))]

/-- The guard that attaches them; the request carries the caller's organisation. -/
def tenantGuard : Guard Uuid := abilityGuard some tenantRules

def noUsers : Table userEntity where
  rows := []
  keyed _ h := absurd h List.not_mem_nil
  distinct := List.nodup_nil

/-- A caller of one organisation creates a user in another, and the request commits. -/
theorem create_ignores_condition :
    shouldCommit (serveRest usersSurface usersDb ⟨true, false, true⟩ true [tenantGuard]
        ⟨none, acme⟩ (.create (.ok globex)) noUsers).1 = true ∧
      ¬ WriteScoped (restAbility [tenantGuard] ⟨none, acme⟩) noUsers
        (serveRest usersSurface usersDb ⟨true, false, true⟩ true [tenantGuard] ⟨none, acme⟩
          (.create (.ok globex)) noUsers).2 := by
  refine ⟨by decide, fun h => ?_⟩
  obtain ⟨ability, hability, hcan⟩ := h.inserted _ (List.mem_singleton_self _)
    (fun _ hs => absurd hs List.not_mem_nil)
  cases hability
  exact absurd hcan (by decide)

end Nestrs.Crud
