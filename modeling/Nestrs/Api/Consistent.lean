import Nestrs.Api.Tenants

/-!
# The constraints of the database, in every run

What `apps/db/src/migrations` asks of the rows holds in every run of the app, whatever comes in: the
columns are of their types and not `NULL`, emails and names are there once, and every user has its
organisation. The listings can then be said exactly (`Listing.lean`).

An update sets the columns of its input and no others, so that it is the types of the inputs that
keep `NULL` out; `UNIQUE` and the foreign key are checked on the row as it is to become, and a
`DELETE` of an organisation that has users is turned down.

Results:
* `sound_of_wrote`: a generated write leaves a table that is sound, for every exposed entity;
* **`consistent_run`**: a database that is consistent stays so.
-/

namespace Nestrs.Api

open Nestrs.Lib Nestrs.Authz Nestrs.Orm Nestrs.Http Nestrs.Crud Nestrs.Resource Nestrs.Auth

variable {EK DK : Type}

/-! ## One table -/

section Sound

variable {E : Entity schema} {x : ExposedEntity E} {unique : Column} {t t' : Table E}

/-- The rows are of their types, and one column is `UNIQUE`. -/
structure Sound (x : ExposedEntity E) (unique : Column) (t : Table E) : Prop where
  typed : ∀ r ∈ t.rows, x.Typed r
  unique : ∀ r ∈ t.rows, ∀ s ∈ t.rows, s.get unique = r.get unique → E.key s = E.key r

theorem taken_eq_false {r : E.Row} : taken t unique r = false ↔
    ∀ s ∈ t.rows, s.get unique = r.get unique → E.key s = E.key r := by
  simp only [taken, List.any_eq_false, decide_eq_true_eq, not_and, not_imp_not, ne_eq]

theorem typed_insertRow {active : ActiveModel E} {row : E.Row}
    (h : insertRow active = .ok row) : x.Typed row := by
  intro c hc
  obtain ⟨f, hf, rfl⟩ := List.mem_map.mp hc
  obtain ⟨hf, hcolumn⟩ := List.mem_filter.mp hf
  have hmem : f.ident ∈ E.columns := by
    rw [x.columns_eq]
    exact List.mem_map_of_mem (f := Prod.fst) hc
  refine ⟨(row.typed f.ident).trans (x.variants f hf hcolumn), fun _ => ?_⟩
  unfold insertRow at h
  split at h
  · rename_i hall
    cases h
    have hset := List.all_eq_true.mp hall f.ident hmem
    cases hvalue : (active.get f.ident).value with
    | none =>
      rw [hvalue] at hset
      cases hset
    | some v =>
      rw [hvalue] at hset
      unfold rowOf
      simp only [hvalue, Option.getD_some]
      rw [if_pos (active.typed f.ident v hvalue)]
      simpa using hset
  · cases h

theorem typed_overwrite {input : x.UpdateInput} {model r : E.Row} (hr : x.Typed r) :
    x.Typed ((x.applyTo input (intoActiveModel model)).overwrite r) := by
  intro c hc
  show c.2.Holds (((x.applyTo input (intoActiveModel model)).sets c.1).getD (r.get c.1))
  cases hset : (x.applyTo input (intoActiveModel model)).sets c.1 with
  | none => exact hr c hc
  | some v =>
    unfold ActiveModel.sets at hset
    split at hset
    · by_cases hupdate : x.updateColumn c.1 = true
      · have hget : (x.applyTo input (intoActiveModel model)).get c.1 = .set (input.get c.1) :=
          if_pos hupdate
        rw [hget] at hset
        cases hset
        obtain ⟨f, hf, hinput, hident⟩ := Exposed.has_iff.mp hupdate
        have hmem := x.mem_columnTypes hf (Exposed.isColumn_of_input hf (.inr hinput))
        -- columns have distinct names
        have hsame : (f.ident, f.ty) = c :=
          List.inj_on_of_nodup_map x.nodup_columnTypes hmem hc hident
        rw [← hsame]
        exact input.typed f hf hinput
      · have hget : (x.applyTo input (intoActiveModel model)).get c.1 =
            .unchanged (model.get c.1) := if_neg hupdate
        rw [hget] at hset
        cases hset
    · cases hset

theorem sound_append {row : E.Row} (ht : Sound x unique t) (hrow : x.Typed row)
    (hfree : taken t unique row = false) (hrows : t'.rows = t.rows ++ [row]) :
    Sound x unique t' := by
  have hnew := taken_eq_false.mp hfree
  refine ⟨fun r hr => ?_, fun r hr s hs heq => ?_⟩
  · rw [hrows, List.mem_append, List.mem_singleton] at hr
    rcases hr with hr | rfl
    · exact ht.typed r hr
    · exact hrow
  · rw [hrows, List.mem_append, List.mem_singleton] at hr hs
    rcases hr with hr | rfl
    · rcases hs with hs | rfl
      · exact ht.unique r hr s hs heq
      · exact (hnew r hr heq.symm).symm
    · rcases hs with hs | rfl
      · exact hnew s hs heq
      · rfl

theorem sound_sublist (ht : Sound x unique t) (hrows : ∀ r ∈ t'.rows, r ∈ t.rows) :
    Sound x unique t' :=
  ⟨fun r hr => ht.typed r (hrows r hr),
    fun r hr s hs heq => ht.unique r (hrows r hr) s (hrows s hs) heq⟩

/-- One row is written, and the value it gets is no other row's. -/
theorem sound_map {p : E.Row → Bool} {f : E.Row → E.Row} {r₀ : E.Row} (ht : Sound x unique t)
    (hrows : t'.rows = t.rows.map fun s => if p s then f s else s)
    (hp : ∀ s ∈ t.rows, p s = true ↔ s = r₀) (hkey : E.key (f r₀) = E.key r₀)
    (htyped : x.Typed r₀ → x.Typed (f r₀)) (hfree : taken t unique (f r₀) = false) :
    Sound x unique t' := by
  have hcases : ∀ r ∈ t'.rows, (r = f r₀ ∧ r₀ ∈ t.rows) ∨ (r ∈ t.rows ∧ r ≠ r₀) := by
    intro r hr
    rw [hrows] at hr
    obtain ⟨s, hs, rfl⟩ := List.mem_map.mp hr
    by_cases hps : p s = true
    · obtain rfl := (hp s hs).mp hps
      exact .inl ⟨if_pos hps, hs⟩
    · rw [if_neg hps]
      exact .inr ⟨hs, fun heq => hps ((hp s hs).mpr heq)⟩
  have hnew := taken_eq_false.mp hfree
  refine ⟨fun r hr => ?_, fun r hr s hs heq => ?_⟩
  · rcases hcases r hr with ⟨rfl, hmem⟩ | ⟨hr, -⟩
    · exact htyped (ht.typed _ hmem)
    · exact ht.typed r hr
  · rcases hcases r hr with ⟨rfl, -⟩ | ⟨hr, -⟩
    · rcases hcases s hs with ⟨rfl, -⟩ | ⟨hs, -⟩
      · rfl
      · exact hnew s hs heq
    · rcases hcases s hs with ⟨rfl, -⟩ | ⟨hs, -⟩
      · exact (hnew r hr heq.symm).symm
      · exact ht.unique r hr s hs heq

/-- What the database checks of a row that it stores. -/
structure Checks (db : Backend E) (unique : Column) (t : Table E) : Prop where
  fill : ∀ {active row}, db.fill active t = .ok row →
    insertRow active = .ok row ∧ db.check row = none
  check : ∀ {row}, db.check row = none → taken t unique row = false

variable {db : Backend E} {seed : Uuid} {ambient : Ambient}

/-- **A generated write leaves a sound table.** -/
theorem sound_of_wrote (hdb : Checks db unique t) (ht : Sound x unique t)
    {write : Write (x.service seed)} (h : Wrote (x.service seed) ambient db t t' write) :
    Sound x unique t' := by
  cases h with
  | nothing h => exact h ▸ ht
  | noUpdate hmissing h => exact h ▸ ht
  | noDelete h => exact h ▸ ht
  | created row h =>
    obtain ⟨hfill, -, hrows⟩ := CrudService.create_spec h
    obtain ⟨hrow, hcheck⟩ := hdb.fill hfill
    exact sound_append ht (typed_insertRow hrow) (hdb.check hcheck) hrows
  | updated model row hfound h =>
    unfold CrudService.update Repo.update at h
    rw [bind_eq_ok] at h
    obtain ⟨-, -, h⟩ := h
    obtain ⟨id, -, hadmits, ⟨-, rfl⟩ | ⟨hnoop, hrows⟩⟩ := Table.updateOne_eq_ok h
    · exact ht
    · unfold Table.Admits at hadmits
      rw [hnoop] at hadmits
      obtain ⟨r, hfind, hcheck⟩ := hadmits
      exact sound_map ht hrows (fun s hs => Table.addressed_iff_eq hfind hs)
        (ActiveModel.key_overwrite _ r) typed_overwrite (hdb.check hcheck)
  | deleted model hfound h =>
    obtain ⟨key, -, hrows⟩ := CrudService.delete_spec h
    refine sound_sublist ht fun r hr => ?_
    rw [hrows] at hr
    exact List.mem_of_mem_filter hr

end Sound

/-! ## The two tables -/

/-- **A consistent database**: both tables are sound, and the foreign key holds. -/
structure Consistent (s : Store) : Prop where
  users : Sound user "email" s.users
  orgs : Sound org "name" s.orgs
  owned : ∀ r ∈ s.users.rows, (s.orgs.findById (uuidOf r "org_id")).isSome = true

section Store

variable {server : Server EK DK} {actor : Claims} {s s' : Store} {w : World}

theorem checks_users (s : Store) (sql : Sql) : Checks (s.usersDb sql) "email" s.users where
  fill := checked_eq_ok
  check {row} h := by
    change s.checkUser row = none at h
    unfold Store.checkUser at h
    split at h
    · cases h
    · rename_i hfree
      exact Bool.eq_false_iff.mpr hfree

theorem checks_orgs (s : Store) (sql : Sql) : Checks (s.orgsDb sql) "name" s.orgs where
  fill := checked_eq_ok
  check {row} h := by
    change s.checkOrg row = none at h
    unfold Store.checkOrg at h
    split at h
    · cases h
    · rename_i hfree
      exact Bool.eq_false_iff.mpr hfree

/-- The foreign key, on a user that is stored. -/
theorem owned_of_checkUser {row : userEntity.Row} (h : s.checkUser row = none) :
    (s.orgs.findById (uuidOf row "org_id")).isSome = true := by
  unfold Store.checkUser at h
  split at h
  · cases h
  · split at h
    · cases h
    · rename_i hfound
      exact Option.isSome_iff_ne_none.mpr fun hnone => hfound (Option.isNone_iff_eq_none.mpr hnone)

theorem uuidOf_org_id_overwrite (input : user.UpdateInput) (model r : userEntity.Row) :
    uuidOf ((user.applyTo input (intoActiveModel model)).overwrite r) "org_id" =
      uuidOf r "org_id" := by
  unfold uuidOf
  rw [get_org_id_overwrite]

/-- After a generated write, a user has the organisation of one that was there. -/
theorem org_of_wrote {seed : Uuid} {ambient : Ambient} {db : Backend userEntity}
    {t t' : Table userEntity} {write : Write (user.service seed)}
    (h : Wrote (user.service seed) ambient db t t' write)
    (hcreate : ∀ input, write ≠ .create input) :
    ∀ r ∈ t'.rows, ∃ r₀ ∈ t.rows, uuidOf r₀ "org_id" = uuidOf r "org_id" := by
  have hsame : t' = t → ∀ r ∈ t'.rows, ∃ r₀ ∈ t.rows, uuidOf r₀ "org_id" = uuidOf r "org_id" :=
    fun heq r hr => ⟨r, heq ▸ hr, rfl⟩
  cases h with
  | nothing h => exact hsame h
  | noUpdate hmissing h => exact hsame h
  | noDelete h => exact hsame h
  | created row h => exact absurd rfl (hcreate _)
  | updated model row hfound h =>
    rcases CrudService.update_spec h with ⟨-, heq⟩ | ⟨key, -, hrows⟩
    · exact hsame heq
    · intro r hr
      rw [hrows] at hr
      obtain ⟨r₀, hr₀, rfl⟩ := List.mem_map.mp hr
      refine ⟨r₀, hr₀, ?_⟩
      split
      · exact (uuidOf_org_id_overwrite _ model r₀).symm
      · rfl
  | deleted model hfound h =>
    obtain ⟨key, -, hrows⟩ := CrudService.delete_spec h
    intro r hr
    rw [hrows] at hr
    exact ⟨r, List.mem_of_mem_filter hr, rfl⟩

theorem Changes.consistent (h : Changes server actor s s') (hs : Consistent s) :
    Consistent s' := by
  induction h with
  | refl s => exact hs
  | users seed write h hcreate rest ih =>
    refine ih ⟨sound_of_wrote (checks_users _ _) hs.users h, hs.orgs, fun r hr => ?_⟩
    obtain ⟨r₀, hr₀, horg⟩ := org_of_wrote h hcreate r hr
    exact horg ▸ hs.owned r₀ hr₀
  | created seed input row h rest ih =>
    obtain ⟨hrow, hcheck, hrows, horgs⟩ := createInOrg_stored h
    refine ih ⟨sound_append hs.users (typed_insertRow hrow)
      ((checks_users _ server.sql).check hcheck) hrows, horgs ▸ hs.orgs, fun r hr => ?_⟩
    rw [hrows, List.mem_append, List.mem_singleton] at hr
    rw [horgs]
    rcases hr with hr | rfl
    · exact hs.owned r hr
    · exact owned_of_checkUser hcheck
  | orgs seed write h hadmin hrestricts rest ih =>
    refine ih ⟨hs.users, sound_of_wrote (checks_orgs _ _) hs.orgs h, fun r hr => ?_⟩
    have hkept := List.any_eq_false.mp hrestricts r hr
    rw [hs.owned r hr, Bool.true_and] at hkept
    exact Option.isSome_iff_ne_none.mpr fun hnone => hkept (Option.isNone_iff_eq_none.mpr hnone)

/-- **A consistent database stays consistent**, in every run. -/
theorem consistent_run (events : List Event) (h : Consistent w.store) :
    Consistent (server.run w events).store := by
  induction events generalizing w with
  | nil => exact h
  | cons event events ih =>
    refine ih ?_
    have hstep := effect_step server w event
    cases hactor : server.actor event with
    | none =>
      rw [hactor] at hstep
      exact hstep ▸ h
    | some actor =>
      rw [hactor] at hstep
      exact hstep.consistent h

end Store

end Nestrs.Api
