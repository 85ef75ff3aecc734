import Nestrs.Lib.Except
import Mathlib.Data.List.Nodup

/-!
# The merged GraphQL roots

Model of `crates/nestrs-graphql/src/resolver.rs`. Every `#[resolver]` submits its generated objects
to a link-time registry, whose order is not stable. Two functions traverse it: `merge_type_info`
merges the members' fields into one root type for the schema, and the root's `resolve_field` asks
the members built from the same registry one after the other.

The first overwrites: `IndexMap::extend` keeps the position of a key and takes the new value, so the
last member that declares a name gives its definition. The second stops at the first member that
answers. async-graphql generates a member's `type_info` and `resolve_field` from one `impl` block;
`ResolverRegistration.answers` is what the code relies on there.

Which member a definition or an answer comes from is found by running the same functions on
registrations whose definitions and answers carry their position in the registry (`tagged`).

Results:
* `mergeTypeInfo_tagged`, `resolveField_tagged`: the marks change neither schema nor answer;
* `schemaOwner_eq`, `dispatchOwner_eq`: the last and the first member that declares a name;
* **`roots_agree_iff`**: schema and dispatch agree on a name iff at most one member declares it.
-/

namespace Nestrs.Graphql

open Nestrs.Lib

/-- `ResolverKind`. -/
inductive ResolverKind where
  | query
  | mutation
deriving DecidableEq, Repr

/-- `MetaType`, as far as a root reads it: an object with its fields, or something else. -/
inductive MetaType (F : Type) where
  | object (fields : List (String × F))
  | other

/-- The names of the fields. -/
def MetaType.names {F : Type} : MetaType F → List String
  | object fields => fields.map Prod.fst
  | other => []

/-- `ResolverRegistration`, with the object it builds: `None` is the answer of an object that does
not have the field. -/
structure ResolverRegistration (F E V : Type) where
  kind : ResolverKind
  typeInfo : MetaType F
  resolveField : String → Except E (Option V)
  answers : ∀ name, resolveField name = .ok none ↔ name ∉ typeInfo.names

variable {F E V : Type}

/-- `IndexMap::insert`: a new key goes to the end, an old one keeps its place. -/
def insertField (name : String) (d : F) : List (String × F) → List (String × F)
  | [] => [(name, d)]
  | entry :: entries =>
    if entry.1 = name then (name, d) :: entries else entry :: insertField name d entries

/-- `IndexMap::extend`. -/
def extendFields (fields member : List (String × F)) : List (String × F) :=
  member.foldl (fun fields entry => insertField entry.1 entry.2 fields) fields

/-- One turn of the loop of `merge_type_info`. -/
def mergeMember (kind : ResolverKind) (fields : List (String × F))
    (reg : ResolverRegistration F E V) : List (String × F) :=
  if reg.kind ≠ kind then fields
  else match reg.typeInfo with
    | .object member => extendFields fields member
    | .other => fields

/-- `merge_type_info`: the fields of the root. -/
def mergeTypeInfo (regs : List (ResolverRegistration F E V)) (kind : ResolverKind) :
    List (String × F) :=
  regs.foldl (mergeMember kind) []

/-- `build_members`. -/
def buildMembers (regs : List (ResolverRegistration F E V)) (kind : ResolverKind) :
    List (ResolverRegistration F E V) :=
  regs.filter fun reg => reg.kind = kind

/-- `resolve_field` of a root. -/
def resolveField : List (ResolverRegistration F E V) → String → Except E (Option V)
  | [], _ => .ok none
  | member :: members, name => do
    match ← member.resolveField name with
    | some value => .ok (some value)
    | none => resolveField members name

/-! ## Where a definition and an answer come from -/

/-- The type with its definitions marked. -/
def MetaType.tag (i : Nat) : MetaType F → MetaType (Nat × F)
  | object fields => .object (fields.map fun entry => (entry.1, i, entry.2))
  | other => .other

theorem names_tag (type : MetaType F) (i : Nat) : (type.tag i).names = type.names := by
  cases type with
  | object fields => simp [MetaType.tag, MetaType.names, Function.comp_def]
  | other => rfl

/-- The registration with its definitions and answers marked. -/
def ResolverRegistration.tag (reg : ResolverRegistration F E V) (i : Nat) :
    ResolverRegistration (Nat × F) (Nat × E) (Nat × V) where
  kind := reg.kind
  typeInfo := reg.typeInfo.tag i
  resolveField name := match reg.resolveField name with
    | .ok value => .ok (value.map fun v => (i, v))
    | .error e => .error (i, e)
  answers name := by
    rw [names_tag, ← reg.answers name]
    cases reg.resolveField name with
    | error e => simp
    | ok value => cases value <;> simp

/-- The registry, each registration marked with its position. -/
def tagged (regs : List (ResolverRegistration F E V)) :
    List (ResolverRegistration (Nat × F) (Nat × E) (Nat × V)) :=
  regs.zipIdx.map fun entry => entry.1.tag entry.2

/-- The member whose definition of the field is in the schema. -/
def schemaOwner (regs : List (ResolverRegistration F E V)) (kind : ResolverKind)
    (name : String) : Option Nat :=
  ((mergeTypeInfo (tagged regs) kind).lookup name).map Prod.fst

/-- The member whose resolver of the field is run. -/
def dispatchOwner (regs : List (ResolverRegistration F E V)) (kind : ResolverKind)
    (name : String) : Option Nat :=
  match resolveField (buildMembers (tagged regs) kind) name with
  | .ok (some (i, _)) => some i
  | .ok none => none
  | .error (i, _) => some i

/-- The registration is of the kind and declares the field. -/
def ResolverRegistration.declares (reg : ResolverRegistration F E V) (kind : ResolverKind)
    (name : String) : Bool :=
  reg.kind = kind && name ∈ reg.typeInfo.names

/-! ## The marks change nothing -/

theorem map_insertField {G : Type} (f : F → G) (name : String) (d : F)
    (fields : List (String × F)) :
    (insertField name d fields).map (Prod.map id f) =
      insertField name (f d) (fields.map (Prod.map id f)) := by
  induction fields with
  | nil => rfl
  | cons entry entries ih =>
    unfold insertField
    by_cases h : entry.1 = name
    · simp [h]
    · simp [h, ih]

theorem map_mergeMember (kind : ResolverKind) (reg : ResolverRegistration F E V) (i : Nat)
    (fields : List (String × (Nat × F))) :
    (mergeMember kind fields (reg.tag i)).map (Prod.map id Prod.snd) =
      mergeMember kind (fields.map (Prod.map id Prod.snd)) reg := by
  have hextend : ∀ (member : List (String × F)) (fields : List (String × (Nat × F))),
      (extendFields fields (member.map fun entry => (entry.1, i, entry.2))).map
          (Prod.map id Prod.snd) =
        extendFields (fields.map (Prod.map id Prod.snd)) member := by
    intro member
    unfold extendFields
    induction member with
    | nil => exact fun _ => rfl
    | cons entry member ih =>
      intro fields
      rw [List.map_cons, List.foldl_cons, ih, map_insertField]
      rfl
  have hkinds : (reg.tag i).kind = reg.kind := rfl
  have htypes : (reg.tag i).typeInfo = reg.typeInfo.tag i := rfl
  unfold mergeMember
  rw [hkinds, htypes]
  by_cases hkind : reg.kind = kind
  · rw [if_neg (not_not.mpr hkind), if_neg (not_not.mpr hkind)]
    cases reg.typeInfo with
    | object member => exact hextend member fields
    | other => rfl
  · rw [if_pos hkind, if_pos hkind]

/-- The schema of the marked registry is the schema. -/
theorem mergeTypeInfo_tagged (regs : List (ResolverRegistration F E V)) (kind : ResolverKind) :
    (mergeTypeInfo (tagged regs) kind).map (Prod.map id Prod.snd) = mergeTypeInfo regs kind := by
  have hfold : ∀ (entries : List (ResolverRegistration F E V × Nat))
      (fields : List (String × (Nat × F))),
      ((entries.map fun entry => entry.1.tag entry.2).foldl (mergeMember kind) fields).map
          (Prod.map id Prod.snd) =
        (entries.map Prod.fst).foldl (mergeMember kind) (fields.map (Prod.map id Prod.snd)) := by
    intro entries
    induction entries with
    | nil => exact fun _ => rfl
    | cons entry entries ih =>
      intro fields
      rw [List.map_cons, List.map_cons, List.foldl_cons, List.foldl_cons, ih, map_mergeMember]
  unfold mergeTypeInfo tagged
  rw [hfold, List.zipIdx_map_fst]
  rfl

/-- The answer of the marked members is the answer. -/
theorem resolveField_tagged (regs : List (ResolverRegistration F E V)) (kind : ResolverKind)
    (name : String) :
    ((resolveField (buildMembers (tagged regs) kind) name).map (Option.map Prod.snd)).mapError
        Prod.snd =
      resolveField (buildMembers regs kind) name := by
  have hall : ∀ entries : List (ResolverRegistration F E V × Nat),
      ((resolveField (buildMembers (entries.map fun entry => entry.1.tag entry.2) kind) name).map
          (Option.map Prod.snd)).mapError Prod.snd =
        resolveField (buildMembers (entries.map Prod.fst) kind) name := by
    intro entries
    induction entries with
    | nil => rfl
    | cons entry entries ih =>
      obtain ⟨reg, i⟩ := entry
      unfold buildMembers at ih ⊢
      rw [List.map_cons, List.map_cons]
      by_cases hkind : reg.kind = kind
      · rw [List.filter_cons_of_pos (by simp [ResolverRegistration.tag, hkind]),
          List.filter_cons_of_pos (by simp [hkind])]
        unfold resolveField
        have hanswer : (reg.tag i).resolveField name = match reg.resolveField name with
            | .ok value => .ok (value.map fun v => (i, v))
            | .error e => .error (i, e) := rfl
        rw [hanswer]
        cases reg.resolveField name with
        | error e => rfl
        | ok value =>
          cases value with
          | some v => rfl
          | none => exact ih
      · rw [List.filter_cons_of_neg (by simp [ResolverRegistration.tag, hkind]),
          List.filter_cons_of_neg (by simp [hkind])]
        exact ih
  unfold tagged
  rw [hall, List.zipIdx_map_fst]

/-! ## The schema -/

theorem lookup_insertField (name : String) (d : F) (fields : List (String × F)) (n : String) :
    (insertField name d fields).lookup n = if n = name then some d else fields.lookup n := by
  induction fields with
  | nil =>
    by_cases h : n = name
    · simp [insertField, h]
    · simp [insertField, h, List.lookup_cons, beq_eq_false_iff_ne.mpr h]
  | cons entry entries ih =>
    obtain ⟨m, e⟩ := entry
    unfold insertField
    by_cases hm : m = name
    · subst hm
      rw [if_pos rfl]
      by_cases h : n = m
      · simp [h]
      · simp [h, List.lookup_cons, beq_eq_false_iff_ne.mpr h]
    · rw [if_neg hm, List.lookup_cons, List.lookup_cons, ih]
      by_cases h : n = name
      · subst h
        simp [beq_eq_false_iff_ne.mpr (Ne.symm hm)]
      · simp only [h, if_false]

/-- Extending by fields of one mark: the names among them now carry it. -/
theorem lookup_extendFields (i : Nat) (member : List (String × F))
    (fields : List (String × (Nat × F))) (n : String) :
    ((extendFields fields (member.map fun entry => (entry.1, i, entry.2))).lookup n).map Prod.fst =
      if n ∈ member.map Prod.fst then some i else (fields.lookup n).map Prod.fst := by
  unfold extendFields
  induction member generalizing fields with
  | nil => simp
  | cons entry member ih =>
    rw [List.map_cons, List.foldl_cons, ih, lookup_insertField]
    by_cases hrest : n ∈ member.map Prod.fst
    · rw [if_pos hrest, if_pos (by rw [List.map_cons]; exact List.mem_cons_of_mem _ hrest)]
    · rw [if_neg hrest]
      by_cases h : n = entry.1
      · rw [if_pos h, if_pos (by simp [h])]
        rfl
      · rw [if_neg h, if_neg (by simpa [h] using hrest)]

theorem lookup_mergeMember (kind : ResolverKind) (reg : ResolverRegistration F E V) (i : Nat)
    (fields : List (String × (Nat × F))) (n : String) :
    ((mergeMember kind fields (reg.tag i)).lookup n).map Prod.fst =
      if reg.declares kind n then some i else (fields.lookup n).map Prod.fst := by
  have hkinds : (reg.tag i).kind = reg.kind := rfl
  have htypes : (reg.tag i).typeInfo = reg.typeInfo.tag i := rfl
  unfold mergeMember ResolverRegistration.declares
  rw [hkinds, htypes]
  by_cases hkind : reg.kind = kind
  · rw [if_neg (not_not.mpr hkind)]
    cases reg.typeInfo with
    | object member =>
      by_cases hn : n ∈ (MetaType.object member).names
      · rw [if_pos (by simp only [hkind, hn, decide_true, Bool.and_true])]
        exact (lookup_extendFields i member fields n).trans (if_pos hn)
      · rw [if_neg (by simp only [hn, decide_false, Bool.and_false, Bool.false_eq_true,
          not_false_eq_true])]
        exact (lookup_extendFields i member fields n).trans (if_neg hn)
    | other => simp [MetaType.tag, MetaType.names]
  · rw [if_pos hkind]
    simp [hkind]

/-- The definition in the schema is the last member's that declares the name. -/
theorem schemaOwner_eq (regs : List (ResolverRegistration F E V)) (kind : ResolverKind)
    (name : String) :
    schemaOwner regs kind name =
      ((regs.zipIdx.filter fun entry => entry.1.declares kind name).getLast?).map Prod.snd := by
  have hfold : ∀ (entries : List (ResolverRegistration F E V × Nat))
      (fields : List (String × (Nat × F))),
      (((entries.map fun entry => entry.1.tag entry.2).foldl (mergeMember kind) fields).lookup
          name).map Prod.fst =
        (((entries.filter fun entry => entry.1.declares kind name).getLast?).map Prod.snd).or
          ((fields.lookup name).map Prod.fst) := by
    intro entries
    induction entries with
    | nil => exact fun _ => rfl
    | cons entry entries ih =>
      intro fields
      rw [List.map_cons, List.foldl_cons, ih, lookup_mergeMember]
      by_cases h : entry.1.declares kind name = true
      · rw [if_pos h, List.filter_cons_of_pos (by exact h), List.getLast?_cons]
        cases (entries.filter fun entry => entry.1.declares kind name).getLast? <;> rfl
      · rw [if_neg h, List.filter_cons_of_neg (by exact h)]
  unfold schemaOwner mergeTypeInfo tagged
  rw [hfold]
  simp

/-! ## Dispatch -/

/-- The resolver that is run is the first member's that declares the name. -/
theorem dispatchOwner_eq (regs : List (ResolverRegistration F E V)) (kind : ResolverKind)
    (name : String) :
    dispatchOwner regs kind name =
      ((regs.zipIdx.filter fun entry => entry.1.declares kind name).head?).map Prod.snd := by
  unfold dispatchOwner tagged
  induction regs.zipIdx with
  | nil => rfl
  | cons entry entries ih =>
    obtain ⟨reg, i⟩ := entry
    by_cases hkind : reg.kind = kind
    · have hmember :
          buildMembers (((reg, i) :: entries).map fun entry => entry.1.tag entry.2) kind =
          reg.tag i :: buildMembers (entries.map fun entry => entry.1.tag entry.2) kind := by
        unfold buildMembers
        rw [List.map_cons, List.filter_cons_of_pos (by simp [ResolverRegistration.tag, hkind])]
      rw [hmember]
      by_cases hname : name ∈ reg.typeInfo.names
      · rw [List.filter_cons_of_pos (by simp [ResolverRegistration.declares, hkind, hname])]
        have hsome : reg.resolveField name ≠ .ok none := fun h => (reg.answers name).mp h hname
        cases hres : reg.resolveField name with
        | error e => simp [resolveField, ResolverRegistration.tag, hres, bind, Except.bind]
        | ok value =>
          cases value with
          | none => exact absurd hres hsome
          | some v => simp [resolveField, ResolverRegistration.tag, hres, bind, Except.bind]
      · rw [List.filter_cons_of_neg (by simp [ResolverRegistration.declares, hname])]
        have hnone : reg.resolveField name = .ok none := (reg.answers name).mpr hname
        rw [← ih]
        simp [resolveField, ResolverRegistration.tag, hnone, bind, Except.bind]
    · have hother : buildMembers (((reg, i) :: entries).map fun entry => entry.1.tag entry.2) kind =
          buildMembers (entries.map fun entry => entry.1.tag entry.2) kind := by
        unfold buildMembers
        rw [List.map_cons, List.filter_cons_of_neg (by simp [ResolverRegistration.tag, hkind])]
      rw [hother, ih, List.filter_cons_of_neg (by simp [ResolverRegistration.declares, hkind])]

/-! ## Agreement -/

/-- The first and the last of a list without repetitions are one iff it has at most one element. -/
theorem getLast?_eq_head?_iff {l : List (ResolverRegistration F E V × Nat)}
    (h : (l.map Prod.snd).Nodup) :
    l.getLast?.map Prod.snd = l.head?.map Prod.snd ↔ l.length ≤ 1 := by
  cases l with
  | nil => simp
  | cons a l =>
    cases hl : l.getLast? with
    | none =>
      rw [List.getLast?_eq_none_iff] at hl
      subst hl
      simp
    | some b =>
      have hb : b ∈ l := List.mem_of_getLast? hl
      rw [List.getLast?_cons, hl]
      rw [List.map_cons, List.nodup_cons] at h
      have hne : b.2 ≠ a.2 := fun heq => h.1 (heq ▸ List.mem_map_of_mem hb)
      have hlen : 0 < l.length := List.length_pos_of_mem hb
      simp only [Option.getD_some, Option.map_some, List.head?_cons, Option.some.injEq,
        List.length_cons]
      constructor
      · intro heq
        exact absurd heq hne
      · intro hle
        omega

theorem length_declaring (regs : List (ResolverRegistration F E V)) (kind : ResolverKind)
    (name : String) :
    (regs.zipIdx.filter fun entry => entry.1.declares kind name).length =
      (regs.filter fun reg => reg.declares kind name).length := by
  have hmap : (regs.zipIdx.filter fun entry => entry.1.declares kind name).map Prod.fst =
      regs.filter fun reg => reg.declares kind name := by
    conv_rhs => rw [← List.zipIdx_map_fst 0 regs]
    rw [List.filter_map]
    rfl
  rw [← hmap, List.length_map]

/-- **When the merged root agrees with dispatch.** For every registry in whatever link order and
every field name: the member whose definition is in the schema is the one whose resolver is run iff
at most one registration of the kind declares the name. -/
theorem roots_agree_iff (regs : List (ResolverRegistration F E V)) (kind : ResolverKind)
    (name : String) :
    schemaOwner regs kind name = dispatchOwner regs kind name ↔
      (regs.filter fun reg => reg.declares kind name).length ≤ 1 := by
  rw [schemaOwner_eq, dispatchOwner_eq, ← length_declaring]
  refine getLast?_eq_head?_iff ?_
  have hnodup : (regs.zipIdx.map Prod.snd).Nodup := by
    rw [List.zipIdx_map_snd]
    exact List.nodup_range'
  exact hnodup.sublist (List.filter_sublist.map _)

/-- A query object with one field `user`, of the given definition and answer. -/
def userQuery (n : Nat) : ResolverRegistration Nat Unit Nat where
  kind := .query
  typeInfo := .object [("user", n)]
  resolveField name := if name = "user" then .ok (some n) else .ok none
  answers name := by
    by_cases h : name = "user" <;> simp [h, MetaType.names]

/-- Two resolvers with a field `user`: the schema has the second one's, the first one is run. -/
theorem userQueries_disagree :
    schemaOwner [userQuery 0, userQuery 1] .query "user" = some 1 ∧
      dispatchOwner [userQuery 0, userQuery 1] .query "user" = some 0 := by
  decide

end Nestrs.Graphql
