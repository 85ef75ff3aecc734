import Nestrs.Lib.Keyset
import Nestrs.Orm.Service
import Mathlib.Algebra.Group.Nat.Defs
import Mathlib.Data.List.Sort

/-!
# Keyset pagination

Model of a client that pages through a collection with `Repo::page`
(`crates/nestrs-orm/src/page.rs`): it starts without a cursor, hands `next_cursor` back as `after`,
and stops when `has_more` is false. Between two reads anything may be written, and the caller's
ability may be another one: a `Read` is what one call finds. The page size may differ from read to
read; `PageParams::limit` clamps it once more before `Repo::page` does, which changes nothing.

Rows are told apart by their primary key. What the walk amounts to is in `Lib/Keyset.lean`; here is
that `Repo::page` takes one step of it.

Results:
* `page_spec`: what one call returns, by the readable rows beyond the cursor;
* **`pagination_exact`**: a walk ascends, repeats no row and passes over none that stays; over a
  table that does not change it ends, with exactly the readable rows.
-/

namespace Nestrs.Orm

open Nestrs.Lib Nestrs.Authz

variable {σ : Schema} {E : Entity σ}

/-- What one call of `Repo::page` finds, and the page size it is asked for. -/
structure Read {σ : Schema} (E : Entity σ) where
  ambient : Ambient
  table : Table E
  first : Nat

namespace Read

/-- The rows the caller may read: those that `condition_for` of its ability keeps, or every row when
no ability is installed. -/
def readable (read : Read E) (db : Backend E) : List E.Row :=
  read.table.rows.filter fun r => read.ambient.ability.all fun ability =>
    decide ((ability.conditionFor .read E.type).Keeps db.sql r.get)

/-- The call. -/
def page (read : Read E) (db : Backend E) (after : Option Uuid) : Except DbErr (Page E.Row) :=
  Repo.page read.ambient db read.first after read.table

/-- They are the rows in the scope of the call. -/
theorem readable_eq (read : Read E) (db : Backend E) :
    read.readable db = read.table.select db.sql (scopeFor read.ambient .read E.type) := by
  unfold readable Table.select scopeFor
  cases read.ambient.ability with
  | none => exact List.filter_congr fun r _ => by simp [Condition.Keeps]
  | some ability => rfl

end Read

/-- `PageWalk db reads i after pages`: the pages a client reads from the `i`-th call on. -/
inductive PageWalk (db : Backend E) (reads : Nat → Read E) :
    Nat → Option Uuid → List (Page E.Row) → Prop
  | last {i : Nat} {after : Option Uuid} {p : Page E.Row}
      (hpage : (reads i).page db after = .ok p) (hlast : p.hasMore = false) :
      PageWalk db reads i after [p]
  | more {i : Nat} {after : Option Uuid} {p : Page E.Row} {pages : List (Page E.Row)}
      (hpage : (reads i).page db after = .ok p) (hmore : p.hasMore = true)
      (rest : PageWalk db reads (i + 1) p.nextCursor pages) :
      PageWalk db reads i after (p :: pages)

/-- The key of a row as a number: the order of the cursor. -/
def keyNat (r : E.Row) : Nat := ((E.key r).getD 0).toNat

theorem keyNat_of_key {r : E.Row} {id : Uuid} (h : E.key r = some id) : keyNat r = id.toNat := by
  unfold keyNat
  rw [h]
  rfl

/-- Rows of a table with one key number are one row. -/
theorem eq_of_keyNat {t : Table E} {r s : E.Row} (hr : r ∈ t.rows) (hs : s ∈ t.rows)
    (h : keyNat r = keyNat s) : r = s := by
  obtain ⟨idr, hidr⟩ := Option.isSome_iff_exists.mp (t.keyed r hr)
  obtain ⟨ids, hids⟩ := Option.isSome_iff_exists.mp (t.keyed s hs)
  rw [keyNat_of_key hidr, keyNat_of_key hids] at h
  refine Table.eq_of_key hr hs ?_
  rw [hidr, hids, BitVec.eq_of_toNat_eq h]

theorem clamp_pos (first : Nat) : 0 < Repo.clamp first := by
  unfold Repo.clamp
  omega

/-! ## One call -/

section Call

variable {db : Backend E} {read : Read E} {after : Option Uuid} {p : Page E.Row}

/-- The readable rows beyond the cursor, ascending by key. -/
def windowOf (db : Backend E) (read : Read E) (after : Option Uuid) : List E.Row :=
  let beyond := fun r => match after with
    | some id => decide (id < (E.key r).getD 0)
    | none => true
  ((read.readable db).filter beyond).mergeSort Repo.keyLe

theorem ascending_of_mergeSort {t : Table E} {l : List E.Row} (hl : ∀ r ∈ l, r ∈ t.rows)
    (hnodup : l.Nodup) :
    (l.mergeSort Repo.keyLe).Pairwise fun r s => keyNat r < keyNat s := by
  have hle : ∀ r s : E.Row, Repo.keyLe r s = true ↔ keyNat r ≤ keyNat s := by
    intro r s
    unfold Repo.keyLe keyNat
    rw [decide_eq_true_iff, BitVec.le_def]
  have hsorted : (l.mergeSort Repo.keyLe).Pairwise fun r s => Repo.keyLe r s = true := by
    refine List.pairwise_mergeSort (fun a b c hab hbc => ?_) (fun a b => ?_) l
    · rw [hle] at hab hbc ⊢
      omega
    · rw [Bool.or_eq_true, hle, hle]
      omega
  have hdistinct : (l.mergeSort Repo.keyLe).Nodup :=
    (List.mergeSort_perm l Repo.keyLe).nodup_iff.mpr hnodup
  refine (List.pairwise_and_iff.mpr ⟨hsorted, hdistinct⟩).imp_of_mem fun hr hs hrs => ?_
  rw [List.mem_mergeSort] at hr hs
  have hne : keyNat _ ≠ keyNat _ := fun heq => hrs.2 (eq_of_keyNat (hl _ hr) (hl _ hs) heq)
  exact lt_of_le_of_ne ((hle _ _).mp hrs.1) hne

theorem mem_windowOf {r : E.Row} :
    r ∈ windowOf db read after ↔
      r ∈ read.readable db ∧ Beyond keyNat (after.map BitVec.toNat) r := by
  unfold windowOf
  rw [List.mem_mergeSort, List.mem_filter]
  refine and_congr_right fun _ => ?_
  cases after with
  | none =>
    refine ⟨fun _ c hc => ?_, fun _ => rfl⟩
    cases hc
  | some id =>
    rw [decide_eq_true_iff, BitVec.lt_def]
    constructor
    · intro hlt c hc
      cases hc
      exact hlt
    · intro hbeyond
      exact hbeyond _ rfl

theorem nodup_readable (read : Read E) (db : Backend E) : (read.readable db).Nodup :=
  (List.Nodup.of_map E.key read.table.distinct).sublist List.filter_sublist

theorem mem_rows_of_readable {r : E.Row} (h : r ∈ read.readable db) : r ∈ read.table.rows :=
  List.mem_of_mem_filter h

/-- The rows `Repo::page` queries are the window of its cursor. -/
theorem window_windowOf :
    Window keyNat (read.readable db) (after.map BitVec.toNat) (windowOf db read after) where
  ascending := ascending_of_mergeSort (t := read.table)
    (fun _ hr => mem_rows_of_readable (List.mem_of_mem_filter hr))
    ((nodup_readable read db).sublist List.filter_sublist)
  mem_iff _ := mem_windowOf

/-- **One call**: the first rows of the window, a further page when the window has more, and the
last row's key as the cursor to it. -/
theorem page_spec :
    read.page db after = .ok p ↔ read.ambient.executor = true ∧
      p.items = (windowOf db read after).take (Repo.clamp read.first) ∧
      p.hasMore = decide (Repo.clamp read.first < (windowOf db read after).length) ∧
      p.nextCursor = if p.hasMore then p.items.getLast?.bind E.key else none := by
  have htake : ∀ (n : Nat) (l : List E.Row), (l.take (n + 1)).take n = l.take n := by
    intro n l
    rw [List.take_take, Nat.min_eq_left (Nat.le_succ n)]
  have hmore : ∀ (n : Nat) (l : List E.Row),
      decide (n < (l.take (n + 1)).length) = decide (n < l.length) := by
    intro n l
    rw [List.length_take, decide_eq_decide]
    omega
  unfold Read.page Repo.page windowOf
  rw [Read.readable_eq, bind_eq_ok]
  simp only [htake, hmore]
  constructor
  · rintro ⟨u, hconn, h⟩
    cases h
    exact ⟨Repo.conn_eq_ok.mp hconn, rfl, rfl, rfl⟩
  · rintro ⟨hexec, hitems, hhas, hnext⟩
    refine ⟨(), Repo.conn_eq_ok.mpr hexec, ?_⟩
    obtain ⟨items, nextCursor, hasMore⟩ := p
    simp only at hitems hhas hnext
    subst hnext
    subst hitems
    subst hhas
    rfl

theorem exists_page (db : Backend E) (after : Option Uuid)
    (hexec : read.ambient.executor = true) : ∃ p, read.page db after = .ok p := by
  unfold Read.page Repo.page
  rw [Repo.conn_eq_ok (u := ()).mpr hexec]
  exact ⟨_, rfl⟩

/-- A page with more to come ends in a row, whose key is the cursor. -/
theorem cursor_of_hasMore (h : read.page db after = .ok p) (hmore : p.hasMore = true) :
    ∃ a id, p.items.getLast? = some a ∧ a ∈ windowOf db read after ∧ E.key a = some id ∧
      p.nextCursor = some id := by
  obtain ⟨-, hitems, hhas, hnext⟩ := page_spec.mp h
  rw [hmore, eq_comm, decide_eq_true_iff] at hhas
  have hne : p.items ≠ [] := by
    rw [hitems]
    intro hnil
    rw [List.take_eq_nil_iff] at hnil
    have hpos := clamp_pos read.first
    rcases hnil with hzero | hnil
    · omega
    · rw [hnil, List.length_nil] at hhas
      omega
  obtain ⟨a, ha⟩ := Option.isSome_iff_exists.mp (List.getLast?_isSome.mpr hne)
  have hmem : a ∈ windowOf db read after := by
    have hitem := List.mem_of_getLast? ha
    rw [hitems] at hitem
    exact List.mem_of_mem_take hitem
  obtain ⟨id, hid⟩ := Option.isSome_iff_exists.mp
    (read.table.keyed a (mem_rows_of_readable (mem_windowOf.mp hmem).1))
  refine ⟨a, id, ha, hmem, hid, ?_⟩
  rw [hnext, if_pos hmore, ha]
  exact hid

/-- `next_cursor` is present exactly when `has_more`. -/
theorem isSome_nextCursor (h : read.page db after = .ok p) : p.nextCursor.isSome = p.hasMore := by
  cases hmore : p.hasMore with
  | true =>
    obtain ⟨_, id, -, -, -, hnext⟩ := cursor_of_hasMore h hmore
    rw [hnext]
    rfl
  | false =>
    rw [(page_spec.mp h).2.2.2, hmore]
    rfl

end Call

/-! ## The walk -/

section Walk

variable {db : Backend E} {reads : Nat → Read E} {i : Nat} {after : Option Uuid}
  {pages : List (Page E.Row)}

/-- A client's walk is a walk by key. -/
theorem PageWalk.walks (h : PageWalk db reads i after pages) :
    Walks keyNat (fun j => (reads j).readable db) (fun j => Repo.clamp (reads j).first) i
      (after.map BitVec.toNat) (pages.map Page.items) := by
  induction h with
  | last hpage hlast =>
    obtain ⟨-, hitems, hhas, -⟩ := page_spec.mp hpage
    rw [hlast, eq_comm, decide_eq_false_iff_not, not_lt] at hhas
    rw [List.map_singleton, hitems, List.take_of_length_le hhas]
    exact Walks.last window_windowOf hhas
  | @more i after p pages hpage hmore rest ih =>
    obtain ⟨-, hitems, hhas, -⟩ := page_spec.mp hpage
    obtain ⟨a, id, hlast, -, hkey, hnext⟩ := cursor_of_hasMore hpage hmore
    rw [hmore, eq_comm, decide_eq_true_iff] at hhas
    rw [hnext, Option.map_some, ← keyNat_of_key hkey] at ih
    rw [hitems] at hlast
    rw [List.map_cons, hitems]
    exact Walks.more window_windowOf hhas hlast ih

/-- What every page of a walk is. -/
theorem PageWalk.page (h : PageWalk db reads i after pages) {j : Nat} (hj : j < pages.length) :
    ∃ after, (reads (i + j)).page db after = .ok (pages.get ⟨j, hj⟩) := by
  induction h generalizing j with
  | @last i after p hpage hlast =>
    obtain rfl : j = 0 := by
      rw [List.length_singleton] at hj
      omega
    exact ⟨after, hpage⟩
  | @more i after p pages hpage hmore rest ih =>
    cases j with
    | zero => exact ⟨after, hpage⟩
    | succ j =>
      rw [show i + (j + 1) = i + 1 + j by omega]
      exact ih (by rw [List.length_cons] at hj; omega)

/-- The keys left beyond the cursor, as a bound on the pages to come. -/
def room : Option Uuid → Nat
  | some id => 2 ^ 128 - id.toNat
  | none => 2 ^ 128 + 1

/-- **A walk ends**, whatever is written meanwhile: the cursor moves up and keys are bounded. -/
theorem exists_pageWalk (hexec : ∀ j, (reads j).ambient.executor = true) (i : Nat)
    (after : Option Uuid) : ∃ pages, PageWalk db reads i after pages := by
  generalize hn : room after = n
  induction n using Nat.strong_induction_on generalizing i after with
  | _ n ih =>
    subst hn
    obtain ⟨p, hpage⟩ := exists_page db after (hexec i)
    cases hmore : p.hasMore with
    | false => exact ⟨[p], .last hpage hmore⟩
    | true =>
      obtain ⟨a, id, -, hmem, hkey, hnext⟩ := cursor_of_hasMore hpage hmore
      have hroom : room (some id) < room after := by
        have hbound := id.isLt
        cases after with
        | none =>
          simp only [room]
          omega
        | some c =>
          have hlt : c.toNat < keyNat a := (mem_windowOf.mp hmem).2 _ rfl
          rw [keyNat_of_key hkey] at hlt
          simp only [room]
          omega
      obtain ⟨pages, hrest⟩ := ih _ hroom (i + 1) (some id) rfl
      exact ⟨p :: pages, .more hpage hmore (hnext ▸ hrest)⟩

/-- The rows of all pages. -/
def allItems (pages : List (Page E.Row)) : List E.Row := pages.flatMap Page.items

theorem allItems_eq_flatten (pages : List (Page E.Row)) :
    allItems pages = (pages.map Page.items).flatten := rfl

theorem mem_readable_of_mem_allItems (h : PageWalk db reads 0 none pages) {r : E.Row}
    (hr : r ∈ allItems pages) : ∃ j, j < pages.length ∧ r ∈ (reads j).readable db := by
  obtain ⟨p, hp, hr⟩ := List.mem_flatMap.mp hr
  obtain ⟨j, hj, rfl⟩ := List.mem_iff_getElem.mp hp
  have hpage := h.walks.page j (by rw [List.length_map]; exact hj)
  refine ⟨j, hj, ?_⟩
  rw [Nat.zero_add] at hpage
  refine hpage.2 r ?_
  simpa using hr

/-- **No row comes twice**, also when it changed between two reads. -/
theorem nodup_keys (h : PageWalk db reads 0 none pages) :
    ((allItems pages).map E.key).Nodup := by
  have hascending := h.walks.ascending
  rw [← allItems_eq_flatten] at hascending
  refine List.pairwise_map.mpr (hascending.imp fun hlt heq => ?_)
  unfold keyNat at hlt
  rw [heq] at hlt
  exact lt_irrefl _ hlt

/-- **No row that stays is passed over.** -/
theorem mem_keys_of_present (h : PageWalk db reads 0 none pages) {id : Uuid}
    (hstays : ∀ j, j < pages.length → ∃ r ∈ (reads j).readable db, E.key r = some id) :
    some id ∈ (allItems pages).map E.key := by
  obtain ⟨r, hr, hkey⟩ := h.walks.complete (k := id.toNat)
    (fun j _ hj => by
      rw [List.length_map, Nat.zero_add] at hj
      obtain ⟨r, hr, hkey⟩ := hstays j hj
      exact ⟨r, hr, keyNat_of_key hkey⟩)
    (fun c hc => by cases hc)
  rw [← allItems_eq_flatten] at hr
  refine List.mem_map.mpr ⟨r, hr, ?_⟩
  obtain ⟨j, -, hread⟩ := mem_readable_of_mem_allItems h hr
  obtain ⟨id', hid'⟩ := Option.isSome_iff_exists.mp
    ((reads j).table.keyed r (mem_rows_of_readable hread))
  rw [keyNat_of_key hid'] at hkey
  rw [hid', BitVec.eq_of_toNat_eq hkey]

/-- Over one table and one ability, a walk reads the readable rows and no others. -/
theorem perm_readable {ambient : Ambient} {t : Table E} {first : Nat → Nat}
    (h : PageWalk db (fun j => ⟨ambient, t, first j⟩) 0 none pages) :
    (allItems pages).Perm (Read.readable ⟨ambient, t, 0⟩ db) := by
  refine (List.perm_ext_iff_of_nodup (nodup_keys h).of_map
    (nodup_readable ⟨ambient, t, 0⟩ db)).mpr fun r => ⟨fun hr => ?_, fun hr => ?_⟩
  · obtain ⟨j, -, hread⟩ := mem_readable_of_mem_allItems h hr
    exact hread
  · have hmem : r ∈ t.rows := mem_rows_of_readable hr
    obtain ⟨id, hid⟩ := Option.isSome_iff_exists.mp (t.keyed r hmem)
    obtain ⟨s, hs, hkey⟩ := List.mem_map.mp (mem_keys_of_present h fun j _ => ⟨r, hr, hid⟩)
    obtain ⟨j, -, hread⟩ := mem_readable_of_mem_allItems h hs
    have hrow : r = s := Table.eq_of_key (t := t) hmem (mem_rows_of_readable hread)
      (hid.trans hkey.symm)
    rw [hrow]
    exact hs

/-- **Keyset pagination is exact.** Whatever each call finds, a walk ends; its keys strictly
ascend, so that no row comes twice; each page is within its size, of rows readable at its turn, with
a cursor exactly when there is more; a row that is there and readable at every read comes exactly
once. Over one table and one ability, the walk reads exactly the readable rows. -/
theorem pagination_exact (db : Backend E) (reads : Nat → Read E)
    (hexec : ∀ j, (reads j).ambient.executor = true) :
    (∃ pages, PageWalk db reads 0 none pages) ∧ ∀ pages, PageWalk db reads 0 none pages →
      (allItems pages).Pairwise (fun r s => keyNat r < keyNat s) ∧
      ((allItems pages).map E.key).Nodup ∧
      (∀ (j : Nat) (hj : j < pages.length),
        (pages.get ⟨j, hj⟩).items.length ≤ Repo.clamp (reads j).first ∧
        (pages.get ⟨j, hj⟩).nextCursor.isSome = (pages.get ⟨j, hj⟩).hasMore ∧
        ∀ r ∈ (pages.get ⟨j, hj⟩).items, r ∈ (reads j).readable db) ∧
      (∀ id, (∀ j, j < pages.length → ∃ r ∈ (reads j).readable db, E.key r = some id) →
        ((allItems pages).map E.key).count (some id) = 1) ∧
      (∀ ambient t, (∀ j, (reads j).ambient = ambient ∧ (reads j).table = t) →
        (allItems pages).Perm (Read.readable ⟨ambient, t, 0⟩ db)) := by
  refine ⟨exists_pageWalk hexec 0 none, fun pages h => ⟨?_, nodup_keys h, ?_, ?_, ?_⟩⟩
  · rw [allItems_eq_flatten]
    exact h.walks.ascending
  · intro j hj
    obtain ⟨after, hpage⟩ := h.page hj
    rw [Nat.zero_add] at hpage
    obtain ⟨-, hitems, -, -⟩ := page_spec.mp hpage
    refine ⟨?_, isSome_nextCursor hpage, fun r hr => ?_⟩
    · rw [hitems, List.length_take]
      exact Nat.min_le_left _ _
    · rw [hitems] at hr
      exact (mem_windowOf.mp (List.mem_of_mem_take hr)).1
  · intro id hstays
    exact List.count_eq_one_of_mem (nodup_keys h) (mem_keys_of_present h hstays)
  · intro ambient t hsame
    have hreads : reads = fun j => ⟨ambient, t, (reads j).first⟩ := by
      funext j
      obtain ⟨hambient, htable⟩ := hsame j
      rw [← hambient, ← htable]
    rw [hreads] at h
    exact perm_readable h

end Walk

/-! ## A feed that grows -/

def noteEntity : Entity fun _ _ => .uuid where
  type := 0
  tableName := "note"
  columns := ["id"]
  pk := "id"
  uuid := rfl

def note (id : Uuid) : noteEntity.Row where
  get _ := .uuid (some id)
  typed _ := rfl

/-- The table of the notes with the given ids. -/
def notes (ids : List Uuid) (h : (ids.map some).Nodup) : Table noteEntity where
  rows := ids.map note
  keyed r hr := by
    obtain ⟨id, -, rfl⟩ := List.mem_map.mp hr
    rfl
  distinct := by
    rw [List.map_map]
    exact h

def notesDb : Backend noteEntity where
  sql := Sql.strict
  fill _ _ := .error (.exec "read only")
  check _ := none

/-- A caller who may read the notes 1, 2 and 3. -/
def subscriber : Ability :=
  buildAbility [(RuleSpec.can .read 0).when
    (.isIn "id" [.uuid (some 1), .uuid (some 2), .uuid (some 3)])]

/-- Pages of one note; note 2 is written after the first read, and note 4 is somebody else's. -/
def feed : Nat → Read noteEntity
  | 0 => ⟨⟨true, some subscriber⟩, notes [4, 3, 1] (by decide), 1⟩
  | _ + 1 => ⟨⟨true, some subscriber⟩, notes [4, 3, 1, 2] (by decide), 1⟩

/-- A walk over the feed ends, and reads note 3 once. -/
theorem feed_walk : ∃ pages, PageWalk notesDb feed 0 none pages ∧
    ((allItems pages).map noteEntity.key).count (some 3) = 1 := by
  obtain ⟨⟨pages, hwalk⟩, hexact⟩ := pagination_exact notesDb feed (by rintro (_ | j) <;> rfl)
  refine ⟨pages, hwalk, (hexact pages hwalk).2.2.2.1 3 fun j _ => ⟨note 3, ?_, rfl⟩⟩
  have hkeeps : (subscriber.conditionFor .read noteEntity.type).Keeps notesDb.sql (note 3).get := by
    decide
  have hthird : ∀ rest, note 3 ∈ note 4 :: note 3 :: rest := fun rest => by simp
  cases j with
  | zero => exact List.mem_filter.mpr ⟨hthird [note 1], decide_eq_true hkeeps⟩
  | succ j => exact List.mem_filter.mpr ⟨hthird [note 1, note 2], decide_eq_true hkeeps⟩

end Nestrs.Orm
