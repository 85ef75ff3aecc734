import Mathlib.Algebra.Order.Floor.Div

/-!
# Offset pagination

Model of `PageArgs` (`crates/nestrs-resource/src/pagination.rs`) and of the `<Name>Page` that
`#[expose(paginate)]` emits (`emit_page` in `crates/nestrs-resource-macros/src/dto.rs`). All numbers
are `u64`. Validation bounds `per_page` by 100 and `page` from below only; `offset` saturates its
subtraction and not its multiplication, so a page far enough out overflows: a panic in a build with
overflow checks (`checks`), and in one without the offset of some earlier row.

Results:
* `validate_eq_ok`: what validation accepts;
* `toNat_divCeil`: `u64::div_ceil` is the ceiling, for every divisor but 0;
* **`pagination_exact_iff`**: offsets, ranges, page count and flags are right iff the offset fits
  into a `u64`.
-/

namespace Nestrs.Resource

/-- A `range` error of `validator`, under the field it is about. -/
structure RangeError where
  field : String
  min : UInt64
  max : Option UInt64
  value : UInt64
deriving DecidableEq, Repr

/-- `#[validate(range(min, max))]` on a field. -/
def checkRange (field : String) (min : UInt64) (max : Option UInt64) (value : UInt64) :
    List RangeError :=
  if min ≤ value && max.all (value ≤ ·) then [] else [⟨field, min, max, value⟩]

theorem checkRange_eq_nil {field : String} {min value : UInt64} {max : Option UInt64} :
    checkRange field min max value = [] ↔ min ≤ value ∧ ∀ m ∈ max, value ≤ m := by
  have hbool : (min ≤ value && max.all (value ≤ ·)) = true ↔
      min ≤ value ∧ ∀ m ∈ max, value ≤ m := by
    cases max <;> simp
  unfold checkRange
  rw [← hbool]
  split
  · rename_i h
    exact ⟨fun _ => h, fun _ => rfl⟩
  · rename_i h
    exact ⟨fun hnil => absurd hnil (List.cons_ne_nil _ _), fun h' => absurd h' h⟩

structure PageArgs where
  page : UInt64
  perPage : UInt64
deriving DecidableEq, Repr

namespace PageArgs

/-- `PageArgs::default`, also the defaults of the two surfaces. -/
def default : PageArgs := ⟨1, 20⟩

/-- `PageArgs::validate`. -/
def validate (args : PageArgs) : Except (List RangeError) Unit :=
  match checkRange "page" 1 none args.page ++ checkRange "per_page" 1 (some 100) args.perPage with
  | [] => .ok ()
  | errors => .error errors

/-- `PageArgs::offset`, in a build with overflow checks and in one without; `none` is a panic. -/
def offset (checks : Bool) (args : PageArgs) : Option UInt64 :=
  let before := if args.page < 1 then 0 else args.page - 1
  if checks = true ∧ 2 ^ 64 ≤ before.toNat * args.perPage.toNat then none
  else some (before * args.perPage)

/-- `PageArgs::limit`. -/
def limit (args : PageArgs) : UInt64 := args.perPage

end PageArgs

/-- `u64::div_ceil`, for a divisor other than 0. -/
def divCeil (a b : UInt64) : UInt64 := if 0 < a % b then a / b + 1 else a / b

/-- `<Name>Page`, over the output type. -/
structure Page (α : Type) where
  items : List α
  total : UInt64
  page : UInt64
  perPage : UInt64
  totalPages : UInt64
  hasNextPage : Bool
  hasPreviousPage : Bool
deriving Repr

/-- `<Name>Page::new`. -/
def Page.new {α : Type} (items : List α) (total : UInt64) (args : PageArgs) : Page α :=
  let perPage := max args.perPage 1
  let totalPages := divCeil total perPage
  { items, total, page := args.page, perPage := args.perPage, totalPages
    hasNextPage := args.page < totalPages
    hasPreviousPage := args.page > 1 }

/-! ## Validation -/

/-- The default passes its own check. -/
example : PageArgs.default.validate = .ok () := rfl

theorem validate_eq_ok {args : PageArgs} :
    args.validate = .ok () ↔
      1 ≤ args.page.toNat ∧ 1 ≤ args.perPage.toNat ∧ args.perPage.toNat ≤ 100 := by
  have hok : args.validate = .ok () ↔ checkRange "page" 1 none args.page ++
      checkRange "per_page" 1 (some 100) args.perPage = [] := by
    unfold PageArgs.validate
    split
    · rename_i h
      exact ⟨fun _ => h, fun _ => rfl⟩
    · rename_i h
      exact ⟨fun hok => absurd hok (by simp), fun hnil => absurd hnil h⟩
  rw [hok, List.append_eq_nil_iff, checkRange_eq_nil, checkRange_eq_nil]
  simp [UInt64.le_iff_toNat_le]

/-- Every error names the field whose value is out of the bounds it states. -/
theorem errors_of_validate {args : PageArgs} {errors : List RangeError}
    (h : args.validate = .error errors) :
    ∀ e ∈ errors, (e.field = "page" ∧ e.value = args.page ∨
        e.field = "per_page" ∧ e.value = args.perPage) ∧
      ¬ (e.min ≤ e.value ∧ ∀ m ∈ e.max, e.value ≤ m) := by
  have hmem : ∀ e ∈ errors, e ∈ checkRange "page" 1 none args.page ∨
      e ∈ checkRange "per_page" 1 (some 100) args.perPage := by
    unfold PageArgs.validate at h
    split at h
    · exact nomatch h
    · cases h
      exact fun e he => List.mem_append.mp he
  have hrange : ∀ {field min max value} {e : RangeError}, e ∈ checkRange field min max value →
      e = ⟨field, min, max, value⟩ ∧ ¬ (min ≤ value ∧ ∀ m ∈ max, value ≤ m) := by
    intro field min max value e he
    refine ⟨?_, fun hgood => ?_⟩
    · unfold checkRange at he
      split at he
      · exact absurd he List.not_mem_nil
      · exact List.mem_singleton.mp he
    · rw [checkRange_eq_nil.mpr hgood] at he
      exact absurd he List.not_mem_nil
  intro e he
  rcases hmem e he with he | he
  · obtain ⟨rfl, hbad⟩ := hrange he
    exact ⟨Or.inl ⟨rfl, rfl⟩, hbad⟩
  · obtain ⟨rfl, hbad⟩ := hrange he
    exact ⟨Or.inr ⟨rfl, rfl⟩, hbad⟩

/-! ## The arithmetic -/

theorem toNat_divCeil {a b : UInt64} (hb : 0 < b.toNat) :
    (divCeil a b).toNat = a.toNat ⌈/⌉ b.toNat := by
  rw [Nat.ceilDiv_eq_add_pred_div]
  have hdecomp := Nat.div_add_mod a.toNat b.toNat
  have hrem := Nat.mod_lt a.toNat hb
  unfold divCeil
  by_cases hr : 0 < a % b
  · have hr' : 0 < a.toNat % b.toNat := by simpa [UInt64.lt_iff_toNat_lt] using hr
    rw [if_pos hr]
    -- a remainder needs a divisor of at least 2, and then the quotient is far from the limit
    have htwo : 2 ≤ b.toNat := by omega
    have hq : a.toNat / b.toNat ≤ a.toNat / 2 := Nat.div_le_div_left htwo (by omega)
    have hlt := a.toNat_lt
    have hfits : a.toNat / b.toNat + 1 < 2 ^ 64 := by omega
    have hless : a.toNat % b.toNat - 1 < b.toNat := by omega
    have hsum : a.toNat + b.toNat - 1 =
        (a.toNat % b.toNat - 1) + b.toNat * (a.toNat / b.toNat + 1) := by
      rw [Nat.mul_add_one]
      omega
    rw [UInt64.toNat_add, UInt64.toNat_div, UInt64.toNat_one, Nat.mod_eq_of_lt hfits, hsum,
      Nat.add_mul_div_left _ _ hb, Nat.div_eq_of_lt hless, Nat.zero_add]
  · have hr' : a.toNat % b.toNat = 0 := by
      have hle : ¬ 0 < a.toNat % b.toNat := by simpa [UInt64.lt_iff_toNat_lt] using hr
      omega
    have hless : b.toNat - 1 < b.toNat := by omega
    have hsum : a.toNat + b.toNat - 1 = (b.toNat - 1) + b.toNat * (a.toNat / b.toNat) := by omega
    rw [if_neg hr, UInt64.toNat_div, hsum, Nat.add_mul_div_left _ _ hb, Nat.div_eq_of_lt hless,
      Nat.zero_add]

/-- The offset of a page from 1 on, while it fits. -/
theorem offset_of_fits (checks : Bool) {args : PageArgs} (hpage : 1 ≤ args.page.toNat)
    (hfits : (args.page.toNat - 1) * args.perPage.toNat < 2 ^ 64) :
    ∃ o, args.offset checks = some o ∧ o.toNat = (args.page.toNat - 1) * args.perPage.toNat := by
  have hle : (1 : UInt64) ≤ args.page := hpage
  have hbefore : (args.page - 1).toNat = args.page.toNat - 1 := UInt64.toNat_sub_of_le _ _ hle
  have hnot : ¬ args.page < 1 := by
    rw [UInt64.lt_iff_toNat_lt]
    exact Nat.not_lt.mpr hpage
  refine ⟨(args.page - 1) * args.perPage, ?_, ?_⟩
  · unfold PageArgs.offset
    simp only [if_neg hnot, hbefore]
    exact if_neg fun h => absurd hfits (Nat.not_lt.mpr h.2)
  · rw [UInt64.toNat_mul, hbefore, Nat.mod_eq_of_lt hfits]

/-! ## The pages of a collection -/

/-- Row number `row` is in the range `[offset, offset + limit)` of the page. -/
def PageArgs.Shows (checks : Bool) (args : PageArgs) (row : Nat) : Prop :=
  ∃ o, args.offset checks = some o ∧ o.toNat ≤ row ∧ row < o.toNat + args.limit.toNat

/-- **The arithmetic of a page is right**, for arguments over a collection of `total` rows. -/
structure PagesRight {α : Type} (checks : Bool) (args : PageArgs) (total : UInt64)
    (items : List α) : Prop where
  /-- The offset is `(page - 1) * per_page`, as numbers. -/
  offset : ∃ o, args.offset checks = some o ∧
    o.toNat = (args.page.toNat - 1) * args.perPage.toNat
  /-- Each row is in the range of exactly one of the pages. -/
  row : ∀ row < total.toNat, ∃! page : UInt64, 1 ≤ page ∧
    page ≤ (Page.new items total args).totalPages ∧
      (⟨page, args.perPage⟩ : PageArgs).Shows checks row
  /-- Each of the pages has a row. -/
  nonempty : ∀ page : UInt64, 1 ≤ page → page ≤ (Page.new items total args).totalPages →
    ∃ row < total.toNat, (⟨page, args.perPage⟩ : PageArgs).Shows checks row
  totalPages : (Page.new items total args).totalPages.toNat = total.toNat ⌈/⌉ args.perPage.toNat
  /-- There is a next page iff some row lies beyond this page's range. -/
  hasNextPage : (Page.new items total args).hasNextPage = true ↔
    ∃ o, args.offset checks = some o ∧ ∃ row < total.toNat, o.toNat + args.limit.toNat ≤ row
  hasPreviousPage : (Page.new items total args).hasPreviousPage = true ↔ 1 < args.page

section Pages

variable {α : Type} {checks : Bool} {args : PageArgs} {total : UInt64} {items : List α}

theorem toNat_totalPages (hper : 1 ≤ args.perPage.toNat) :
    (Page.new items total args).totalPages.toNat = total.toNat ⌈/⌉ args.perPage.toNat := by
  have hmax : max args.perPage 1 = args.perPage := by
    show (if args.perPage ≤ 1 then 1 else args.perPage) = args.perPage
    split
    · rename_i hle
      exact UInt64.toNat_inj.mp (Nat.le_antisymm hper (UInt64.le_iff_toNat_le.mp hle))
    · rfl
  unfold Page.new
  simp only [hmax]
  exact toNat_divCeil hper

/-- A page is beyond the last one iff its predecessors hold all rows. -/
theorem totalPages_le_iff (items : List α) (hper : 1 ≤ args.perPage.toNat) (n : Nat) :
    (Page.new items total args).totalPages.toNat ≤ n ↔ total.toNat ≤ args.perPage.toNat * n := by
  rw [toNat_totalPages hper]
  exact ceilDiv_le_iff_le_mul hper

/-- The pages up to the last one have offsets below `total`, so none of them overflows. -/
theorem shows_iff (hper : 1 ≤ args.perPage.toNat) {page : UInt64} (hpage : 1 ≤ page)
    (hlast : page ≤ (Page.new items total args).totalPages) (row : Nat) :
    (⟨page, args.perPage⟩ : PageArgs).Shows checks row ↔
      row / args.perPage.toNat + 1 = page.toNat := by
  have hone : 1 ≤ page.toNat := hpage
  have hbelow : args.perPage.toNat * (page.toNat - 1) < total.toNat := by
    rw [← Nat.not_le, ← totalPages_le_iff items hper]
    have hle : page.toNat ≤ (Page.new items total args).totalPages.toNat := hlast
    omega
  have hfits : (page.toNat - 1) * args.perPage.toNat < 2 ^ 64 := by
    rw [Nat.mul_comm]
    exact Nat.lt_trans hbelow total.toNat_lt
  obtain ⟨o, ho, hval⟩ : ∃ o, (⟨page, args.perPage⟩ : PageArgs).offset checks = some o ∧
      o.toNat = (page.toNat - 1) * args.perPage.toNat := offset_of_fits checks hone hfits
  have hrange : (⟨page, args.perPage⟩ : PageArgs).Shows checks row ↔
      o.toNat ≤ row ∧ row < o.toNat + args.perPage.toNat := by
    unfold PageArgs.Shows
    rw [ho]
    simp [PageArgs.limit]
  have hdiv : row / args.perPage.toNat = page.toNat - 1 ↔
      (page.toNat - 1) * args.perPage.toNat ≤ row ∧
        row < (page.toNat - 1) * args.perPage.toNat + args.perPage.toNat := by
    rw [Nat.div_eq_iff hper]
    omega
  rw [hrange, hval, ← hdiv]
  omega

/-- **When the arithmetic of a page is right**: for arguments that validation accepts, every total
and both kinds of build, when the offset fits into a `u64`. -/
theorem pagination_exact_iff (checks : Bool) (args : PageArgs) (total : UInt64) (items : List α)
    (h : args.validate = .ok ()) :
    PagesRight checks args total items ↔
      (args.page.toNat - 1) * args.perPage.toNat < 2 ^ 64 := by
  obtain ⟨hpage, hper, -⟩ := validate_eq_ok.mp h
  constructor
  · intro hright
    obtain ⟨o, -, hval⟩ := hright.offset
    rw [← hval]
    exact o.toNat_lt
  · intro hfits
    obtain ⟨o, ho, hval⟩ := offset_of_fits checks hpage hfits
    refine ⟨⟨o, ho, hval⟩, fun row hrow => ?_, fun page hone hlast => ?_, toNat_totalPages hper, ?_,
      ?_⟩
    · -- the page of the row is the one its quotient by the page size gives
      have hquot : row / args.perPage.toNat + 1 ≤
          (Page.new items total args).totalPages.toNat := by
        rw [Nat.succ_le_iff, ← Nat.not_le, totalPages_le_iff items hper, Nat.not_le]
        exact Nat.lt_of_le_of_lt (Nat.mul_div_le row _) hrow
      have hsmall := (Page.new items total args).totalPages.toNat_lt
      have hnum : (UInt64.ofNat (row / args.perPage.toNat + 1)).toNat =
          row / args.perPage.toNat + 1 :=
        UInt64.toNat_ofNat_of_lt' (Nat.lt_of_le_of_lt hquot hsmall)
      have hone : (1 : UInt64) ≤ UInt64.ofNat (row / args.perPage.toNat + 1) := by
        rw [UInt64.le_iff_toNat_le, hnum]
        exact Nat.le_add_left 1 _
      have hlast : UInt64.ofNat (row / args.perPage.toNat + 1) ≤
          (Page.new items total args).totalPages := by
        rw [UInt64.le_iff_toNat_le, hnum]
        exact hquot
      refine ⟨_, ⟨hone, hlast, (shows_iff hper hone hlast row).mpr hnum.symm⟩, ?_⟩
      rintro page ⟨hone', hlast', hshows⟩
      refine UInt64.toNat_inj.mp ?_
      rw [hnum]
      exact ((shows_iff hper hone' hlast' row).mp hshows).symm
    · -- its first row
      have hpos : 1 ≤ page.toNat := hone
      refine ⟨(page.toNat - 1) * args.perPage.toNat, ?_, (shows_iff hper hone hlast _).mpr ?_⟩
      · rw [← Nat.not_le, Nat.mul_comm, ← totalPages_le_iff items hper]
        have hle : page.toNat ≤ (Page.new items total args).totalPages.toNat := hlast
        omega
      · rw [Nat.mul_div_cancel _ hper]
        omega
    · have hnext : (Page.new items total args).hasNextPage = true ↔
          args.page.toNat < (Page.new items total args).totalPages.toNat := by
        show decide (args.page < (Page.new items total args).totalPages) = true ↔ _
        rw [decide_eq_true_iff, UInt64.lt_iff_toNat_lt]
      have hbeyond : (∃ row < total.toNat, o.toNat + args.perPage.toNat ≤ row) ↔
          o.toNat + args.perPage.toNat < total.toNat :=
        ⟨fun ⟨row, hrow, hle⟩ => Nat.lt_of_le_of_lt hle hrow, fun hlt => ⟨_, hlt, le_refl _⟩⟩
      have hend : o.toNat + args.perPage.toNat = args.perPage.toNat * args.page.toNat := by
        rw [hval, ← Nat.succ_mul, Nat.succ_eq_add_one, Nat.sub_add_cancel hpage, Nat.mul_comm]
      rw [hnext, ho, ← Nat.not_le, totalPages_le_iff items hper, Nat.not_le, ← hend, ← hbeyond]
      simp [PageArgs.limit]
    · exact decide_eq_true_iff

end Pages

/-- The third page of 25 in a collection of 60 rows. -/
theorem thirdPage_right : PagesRight true ⟨3, 25⟩ 60 ([] : List String) :=
  (pagination_exact_iff true ⟨3, 25⟩ 60 [] rfl).mpr (by decide)

/-- The first page of 100 whose offset does not fit: accepted by validation, a panic in one build,
and in the other the rows from number 84 on. -/
theorem farPage_wraps :
    (⟨184467440737095518, 100⟩ : PageArgs).validate = .ok () ∧
      (⟨184467440737095518, 100⟩ : PageArgs).offset true = none ∧
      (⟨184467440737095518, 100⟩ : PageArgs).offset false = some 84 ∧
      ¬ PagesRight true ⟨184467440737095518, 100⟩ 200 ([] : List String) ∧
      ¬ PagesRight false ⟨184467440737095518, 100⟩ 200 ([] : List String) := by
  have hbig : ∀ o : UInt64, o.toNat ≠
      ((184467440737095518 : UInt64).toNat - 1) * (100 : UInt64).toNat := by
    intro o
    have hlt := o.toNat_lt
    have hval : ((184467440737095518 : UInt64).toNat - 1) * (100 : UInt64).toNat =
      18446744073709551700 := by decide
    omega
  refine ⟨by decide, by decide, by decide, fun hright => ?_, fun hright => ?_⟩
  · obtain ⟨o, -, hval⟩ := hright.offset
    exact hbig o hval
  · obtain ⟨o, -, hval⟩ := hright.offset
    exact hbig o hval

end Nestrs.Resource
