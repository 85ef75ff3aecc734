import Nestrs.Api.Server

/-!
# What the callers of the api app do to the database

The app writes in three ways: a generated operation on users, a user that `create_in_org` makes, a
generated operation on organisations. `Changes` is a sequence of such writes for one caller, and
whatever is to be known of the database is derived from it. `Within` is what a caller may do to it.

Results:
* `within_of_wrote`: a generated write to the users stays within the caller's organisation,
  whichever row its input sends it to;
* `createInOrg_eq_ok`: the row of `create_in_org`;
* **`Changes.within`**: a caller's writes stay within what the caller may do.
-/

namespace Nestrs.Api

open Nestrs.Lib Nestrs.Authz Nestrs.Orm Nestrs.Http Nestrs.Crud Nestrs.Resource Nestrs.Auth

variable {EK DK : Type}

/-! ## What a caller may see and do -/

/-- The user is one of the caller's organisation. -/
def OwnUser (actor : Claims) (r : userEntity.Row) : Prop :=
  r.get "org_id" = .uuid (some actor.orgId)

/-- The organisation is the caller's, or the caller is an admin. -/
def OwnOrg (actor : Claims) (r : orgEntity.Row) : Prop :=
  actor.isAdmin = true ∨ r.get "id" = .uuid (some actor.orgId)

/-- The object is of the caller's organisation, or an organisation shown to an admin. -/
def Visible (actor : Claims) : Node → Prop
  | .user item => OwnUser actor item.row
  | .org item => OwnOrg actor item.row

/-- The users of an organisation. -/
def usersOf (orgId : Uuid) (t : Table userEntity) : List userEntity.Row :=
  t.rows.filter fun r => r.get "org_id" = .uuid (some orgId)

/-- **What a caller may do to the database**: with the users of its own organisation anything if it
is an admin, and else only add some; with the organisations anything if it is an admin, and else
nothing. -/
structure Within (actor : Claims) (s s' : Store) : Prop where
  others : ∀ orgId, actor.orgId ≠ orgId → usersOf orgId s'.users = usersOf orgId s.users
  appends : actor.isAdmin = false → s.users.rows <+: s'.users.rows
  orgs : actor.isAdmin = false → s'.orgs = s.orgs

theorem Within.refl (actor : Claims) (s : Store) : Within actor s s :=
  ⟨fun _ _ => rfl, fun _ => List.prefix_rfl, fun _ => rfl⟩

theorem Within.trans {actor : Claims} {s s' s'' : Store} (h : Within actor s s')
    (h' : Within actor s' s'') : Within actor s s'' :=
  ⟨fun o ho => (h'.others o ho).trans (h.others o ho),
    fun hadmin => (h.appends hadmin).trans (h'.appends hadmin),
    fun hadmin => (h'.orgs hadmin).trans (h.orgs hadmin)⟩

section Policy

variable {actor : Claims} {action : Action}

theorem ownUser_of_can {r : userEntity.Row} (h : (abilityOf actor).can action r = true) :
    OwnUser actor r := (can_user_iff.mp h).1

theorem ownOrg_of_can {r : orgEntity.Row} (h : (abilityOf actor).can action r = true) :
    OwnOrg actor r :=
  (can_org_iff.mp h).imp_right And.right

/-- Only an admin gets past the gate of a write to organisations. -/
theorem isAdmin_of_canClass (hwrite : action ≠ .read)
    (h : (abilityOf actor).canClass action orgEntity.type = true) : actor.isAdmin = true := by
  obtain ⟨rule, hrule, -⟩ := Ability.canClass_iff.mp h
  obtain ⟨spec, hspec, hsubject, haction, -⟩ := mem_rulesFor.mp hrule
  by_contra hadmin
  rw [AppAbility.define, if_neg hadmin] at hspec
  simp only [List.mem_cons, List.not_mem_nil, or_false] at hspec
  rcases hspec with rfl | rfl | rfl
  · cases hsubject
  · cases hsubject
  · rcases haction with haction | haction
    · exact hwrite haction.symm
    · cases haction

/-- A user that the caller may update or delete is one of an admin. -/
theorem isAdmin_of_can {r : userEntity.Row} (hwrite : action ≠ .read ∧ action ≠ .create)
    (h : (abilityOf actor).can action r = true) : actor.isAdmin = true := by
  rcases (can_user_iff.mp h).2 with hadmin | haction | haction
  · exact hadmin
  · exact absurd haction hwrite.1
  · exact absurd haction hwrite.2

end Policy

/-! ## Writes to the users -/

section Users

variable {server : Server EK DK} {actor : Claims} {seed : Uuid} {db : Backend userEntity}
  {t t' : Table userEntity} {executor : Bool}

/-- No update moves a user to another organisation. -/
theorem get_org_id_overwrite (input : user.UpdateInput) (model r : userEntity.Row) :
    ((user.applyTo input (intoActiveModel model)).overwrite r).get "org_id" = r.get "org_id" := by
  have hnone : (user.applyTo input (intoActiveModel model)).sets "org_id" = none := rfl
  show ((user.applyTo input (intoActiveModel model)).sets "org_id").getD (r.get "org_id") = _
  rw [hnone]
  rfl

theorem usersOf_map {f : userEntity.Row → userEntity.Row} {orgId : Uuid}
    (hrows : t'.rows = t.rows.map f) (horg : ∀ r, (f r).get "org_id" = r.get "org_id")
    (hsame : ∀ r ∈ t.rows, r.get "org_id" = .uuid (some orgId) → f r = r) :
    usersOf orgId t' = usersOf orgId t := by
  unfold usersOf
  rw [hrows, List.filter_map]
  have hfilter : ((fun r : userEntity.Row => decide (r.get "org_id" = .uuid (some orgId))) ∘ f) =
      fun r => decide (r.get "org_id" = .uuid (some orgId)) := by
    funext r
    rw [Function.comp_apply, horg]
  rw [hfilter]
  refine (List.map_congr_left fun r hr => ?_).trans (List.map_id _)
  obtain ⟨hmem, hown⟩ := List.mem_filter.mp hr
  exact hsame r hmem (of_decide_eq_true hown)

/-- What a write of the users service changes, under the ability of a caller. -/
theorem within_of_wrote {write : Write (user.service seed)} {s s' : Store}
    (h : Wrote (user.service seed) ⟨executor, some (abilityOf actor)⟩ db s.users s'.users write)
    (horgs : s'.orgs = s.orgs) (hcreate : ∀ input, write ≠ .create input) :
    Within actor s s' := by
  have hsame : s'.users = s.users → Within actor s s' := fun hsame =>
    ⟨fun _ _ => by rw [hsame], fun _ => by rw [hsame], fun _ => horgs⟩
  cases h with
  | nothing h => exact hsame h
  | created row h => exact absurd rfl (hcreate _)
  | noUpdate hmissing h => exact hsame h
  | noDelete h => exact hsame h
  | updated model row hfound h =>
    obtain ⟨-, -, ability, hability, hcan⟩ := CrudService.access_eq_found.mp hfound
    cases hability
    have hadmin := isAdmin_of_can ⟨by decide, by decide⟩ hcan
    refine ⟨fun orgId hne => ?_, fun hno => absurd (hadmin.symm.trans hno) (by decide),
      fun _ => horgs⟩
    rcases CrudService.update_spec h with ⟨-, heq⟩ | ⟨key, -, hrows⟩
    · rw [heq]
    · refine usersOf_map hrows (fun r => ?_) fun r _ hown => ?_
      · split
        · exact get_org_id_overwrite _ _ r
        · rfl
      · split
        · rename_i haddressed
          -- the `WHERE` of the update keeps users of the caller's organisation
          have hkeeps : ((abilityOf actor).conditionFor .update userEntity.type).Keeps db.sql
              r.get := of_decide_eq_true (Bool.and_eq_true_iff.mp haddressed).2
          have horg := ownUser_of_can (keeps_iff.mp hkeeps)
          rw [OwnUser, hown] at horg
          cases horg
          exact absurd rfl hne
        · rfl
  | deleted model hfound h =>
    obtain ⟨-, hfind, ability, hability, hcan⟩ := CrudService.access_eq_found.mp hfound
    cases hability
    have hadmin := isAdmin_of_can ⟨by decide, by decide⟩ hcan
    refine ⟨fun orgId hne => ?_, fun hno => absurd (hadmin.symm.trans hno) (by decide),
      fun _ => horgs⟩
    obtain ⟨key, hkey, hrows⟩ := CrudService.delete_spec h
    unfold usersOf
    rw [hrows, List.filter_filter]
    refine List.filter_congr fun r hr => ?_
    rw [Bool.eq_iff_iff, Bool.and_eq_true, decide_eq_true_iff]
    refine ⟨And.left, fun hown => ⟨hown, ?_⟩⟩
    rw [Bool.not_eq_true', Bool.eq_false_iff]
    intro haddressed
    have hmodel := Table.eq_of_key hr (Table.mem_of_findById hfind).1
      ((Table.key_of_addressed haddressed).trans hkey.symm)
    rw [hmodel, ownUser_of_can hcan] at hown
    cases hown
    exact hne rfl

/-- What an update returns: the user as it was loaded, or a user in scope with its new values. -/
theorem update_row {executor : Bool} {model row : userEntity.Row} {input : user.UpdateInput}
    (hmodel : OwnUser actor model) (hmem : model ∈ t.rows)
    (h : (user.service seed).update ⟨executor, some (abilityOf actor)⟩ db model input t =
      .ok (row, t')) : OwnUser actor row := by
  unfold CrudService.update Repo.update at h
  rw [bind_eq_ok] at h
  obtain ⟨-, -, h⟩ := h
  obtain ⟨id, hid⟩ := Option.isSome_iff_exists.mp (t.keyed model hmem)
  have hkey : (user.applyTo input (intoActiveModel model)).key = some id :=
    ExposedEntity.key_applyTo hid
  change t.updateOne db (user.applyTo input (intoActiveModel model)) _ = _ at h
  unfold Table.updateOne at h
  simp only [hkey] at h
  split at h
  · split at h
    · rename_i r hfind
      cases h
      obtain ⟨hr, hrkey⟩ := Table.mem_of_findById hfind
      rw [Table.eq_of_key hr hmem (hrkey.trans hid.symm)]
      exact hmodel
    · cases h
  · split at h
    · cases h
    · rename_i r hfind
      split at h
      · cases h
      · cases h
        rw [OwnUser, get_org_id_overwrite]
        have hr := Table.key_of_addressed (List.find?_some hfind)
        rw [Table.eq_of_key (List.mem_of_find?_eq_some hfind) hmem (hr.trans hid.symm)]
        exact hmodel

/-! ## The row of `create_in_org` -/

theorem get_insertRow {E : Entity schema} {active : ActiveModel E} {row : E.Row}
    (h : insertRow active = .ok row) {c : Column} {v : Value} (hset : active.get c = .set v) :
    row.get c = v := by
  unfold insertRow at h
  split at h
  · cases h
    have hvalue : (active.get c).value = some v := by rw [hset]; rfl
    unfold rowOf
    simp only [hvalue, Option.getD_some]
    rw [if_pos (active.typed c v hvalue)]
  · cases h

theorem checked_eq_ok {E : Entity schema} {check : E.Row → Option DbErr}
    {made : Except DbErr E.Row} {row : E.Row} (h : Store.checked check made = .ok row) :
    made = .ok row ∧ check row = none := by
  unfold Store.checked at h
  rw [bind_eq_ok] at h
  obtain ⟨row', hrow, hcheck⟩ := h
  split at hcheck
  · cases hcheck
  · rename_i hnone
    cases hcheck
    exact ⟨hrow, hnone⟩

/-- What `create_in_org` stores. -/
theorem createInOrg_stored {ambient : Ambient} {input : user.CreateInput} {orgId : Uuid}
    {row : userEntity.Row} {s s' : Store}
    (h : server.createInOrg ambient seed input orgId s = .ok (row, s')) :
    insertRow (newUser seed orgId input) = .ok row ∧ s.checkUser row = none ∧
      s'.users.rows = s.users.rows ++ [row] ∧ s'.orgs = s.orgs := by
  unfold Server.createInOrg at h
  split at h
  · cases h
  · rw [bind_eq_ok] at h
    obtain ⟨-, -, h⟩ := h
    rw [bind_eq_ok] at h
    obtain ⟨⟨row', users⟩, hinsert, h⟩ := h
    cases h
    rw [mapError_eq_ok] at hinsert
    obtain ⟨hfill, -, hrows⟩ := Table.insert_spec hinsert
    obtain ⟨hrow, hcheck⟩ := checked_eq_ok hfill
    exact ⟨hrow, hcheck, hrows, rfl⟩

theorem createInOrg_eq_ok {ambient : Ambient} {input : user.CreateInput} {orgId : Uuid}
    {row : userEntity.Row} {s s' : Store}
    (h : server.createInOrg ambient seed input orgId s = .ok (row, s')) :
    row.get "org_id" = .uuid (some orgId) ∧ s'.users.rows = s.users.rows ++ [row] ∧
      s'.orgs = s.orgs := by
  obtain ⟨hrow, -, hrows, horgs⟩ := createInOrg_stored h
  exact ⟨get_insertRow hrow rfl, hrows, horgs⟩

theorem within_of_append {row : userEntity.Row} {s s' : Store} (hown : OwnUser actor row)
    (hrows : s'.users.rows = s.users.rows ++ [row]) (horgs : s'.orgs = s.orgs) :
    Within actor s s' := by
  refine ⟨fun orgId hne => ?_, fun _ => ⟨[row], hrows.symm⟩, fun _ => horgs⟩
  unfold usersOf
  rw [hrows, List.filter_append, List.filter_cons_of_neg, List.filter_nil, List.append_nil]
  rw [decide_eq_true_iff, hown]
  intro heq
  cases heq
  exact hne rfl

end Users

/-! ## Changes of the database -/

/-- **What the requests of a caller do to the database**, one write after the other: an update or a
delete of a user, a user that `create_in_org` makes in the caller's organisation, or a write to the
organisations, which are the caller's to write if it is an admin, and which no foreign key turns
down. -/
inductive Changes (server : Server EK DK) (actor : Claims) : Store → Store → Prop
  | refl (s : Store) : Changes server actor s s
  | users {s s' : Store} {users : Table userEntity} (seed : Uuid)
      (write : Write (user.service seed))
      (h : Wrote (user.service seed) ⟨true, some (abilityOf actor)⟩ (s.usersDb server.sql) s.users
        users write) (hcreate : ∀ input, write ≠ .create input)
      (rest : Changes server actor { s with users } s') : Changes server actor s s'
  | created {s s₁ s' : Store} (seed : Uuid) (input : user.CreateInput) (row : userEntity.Row)
      (h : server.createInOrg ⟨true, some (abilityOf actor)⟩ seed input actor.orgId s =
        .ok (row, s₁)) (rest : Changes server actor s₁ s') : Changes server actor s s'
  | orgs {s s' : Store} {orgs : Table orgEntity} (seed : Uuid) (write : Write (org.service seed))
      (h : Wrote (org.service seed) ⟨true, some (abilityOf actor)⟩ (s.orgsDb server.sql) s.orgs
        orgs write) (hadmin : actor.isAdmin = true ∨ orgs = s.orgs)
      (hrestricts : s.restricts orgs = false)
      (rest : Changes server actor { s with orgs } s') : Changes server actor s s'

/-- What a request does to the database: without a caller, nothing. -/
def Effect (server : Server EK DK) : Option Claims → Store → Store → Prop
  | none, s, s' => s' = s
  | some actor, s, s' => Changes server actor s s'

section Changes

variable {server : Server EK DK} {actor : Claims} {s s' s'' : Store}

theorem Changes.trans (h : Changes server actor s s') (h' : Changes server actor s' s'') :
    Changes server actor s s'' := by
  induction h with
  | refl s => exact h'
  | users seed write h hcreate rest ih => exact .users seed write h hcreate (ih h')
  | created seed input row h rest ih => exact .created seed input row h (ih h')
  | orgs seed write h hadmin hrestricts rest ih =>
    exact .orgs seed write h hadmin hrestricts (ih h')

theorem Effect.refl (caller : Option Claims) (s : Store) : Effect server caller s s :=
  match caller with
  | none => rfl
  | some _ => Changes.refl s

/-- **A caller's writes stay within what the caller may do.** -/
theorem Changes.within (h : Changes server actor s s') : Within actor s s' := by
  induction h with
  | refl s => exact Within.refl actor s
  | users seed write h hcreate rest ih =>
    refine Within.trans ?_ ih
    exact within_of_wrote h rfl hcreate
  | created seed input row h rest ih =>
    obtain ⟨hown, hrows, horgs⟩ := createInOrg_eq_ok h
    exact (within_of_append hown hrows horgs).trans ih
  | orgs seed write h hadmin hrestricts rest ih =>
    refine Within.trans ?_ ih
    refine ⟨fun _ _ => rfl, fun _ => List.prefix_rfl, fun hno => ?_⟩
    exact hadmin.resolve_left fun hyes => absurd (hyes.symm.trans hno) (by decide)

end Changes

end Nestrs.Api
