import Nestrs.Lib.HeaderText
import Mathlib.Data.List.Forall2

/-!
# The `Server-Timing` header

Model of `format_header` (`crates/nestrs-server-timing/src/format.rs`). The interceptor drains the
entries a request has recorded and appends one header with a metric for each entry whose name is a
token, and a last one `total`. A description goes out as a token if it is one, and else as a quoted
string. An entry with a bad name is dropped, "rather than fail the response".

A bad description is not: the text is built with it, `HeaderValue::from_str` refuses the text for a
control character, and `ok()` makes of that no header at all, with no `total` either.

The rendering of a duration (`{:.2}` of its milliseconds) is the parameter `render`, and
`HeaderValue` is `H`, made by `fromStr` and read back by `text`. What a client reads is
`readElements`.

Results:
* `writes_entry`: an entry with a clean description is written as the metric it stands for;
* `toList_formatText`: the text is the metrics, joined by `, `;
* **`header_round_trip_iff`**: the header is there, and is read as the named entries and the total,
  iff no entry with a token as name has a control character other than a tab in its description.
-/

namespace Nestrs.ServerTiming

open Nestrs.Lib

/-- `Entry`; `D` is `Duration`. -/
structure Entry (D : Type) where
  name : String
  desc : Option String
  dur : D
deriving DecidableEq, Repr

/-- `is_valid_token`. The source goes over the bytes; those of a character beyond ASCII are all from
128 on, and not listed. -/
def isValidToken (s : String) : Bool :=
  !s.isEmpty && s.toList.all fun b =>
    "!#$%&'*+-.^_`|~".toList.contains b || ('0' ≤ b && b ≤ '9') || ('A' ≤ b && b ≤ 'Z') ||
      ('a' ≤ b && b ≤ 'z')

section Format

variable {D H : Type} (render : D → String) (fromStr : String → Option H)

/-- The loop over the characters of a description that is quoted. -/
def pushEscaped (buf desc : String) : String :=
  desc.toList.foldl
    (fun buf ch => if ch = '"' ∨ ch = '\\' then (buf.push '\\').push ch else buf.push ch) buf

/-- `write_entry`. -/
def writeEntry (buf : String) (e : Entry D) : String :=
  let buf := buf ++ e.name ++ ";dur=" ++ render e.dur
  match e.desc with
  | none => buf
  | some desc =>
    if isValidToken desc then buf ++ ";desc=" ++ desc
    else (pushEscaped (buf ++ ";desc=\"") desc).push '"'

/-- `if !buf.is_empty() { buf.push_str(", ") }`. -/
def separate (buf : String) : String := if buf.isEmpty then buf else buf ++ ", "

/-- The text `format_header` builds. -/
def formatText (entries : List (Entry D)) (total : D) : String :=
  let buf := (entries.filter fun e => isValidToken e.name).foldl
    (fun buf e => writeEntry render (separate buf) e) ""
  separate buf ++ "total;dur=" ++ render total

/-- `format_header`. -/
def formatHeader (entries : List (Entry D)) (total : D) : Option H :=
  fromStr (formatText render entries total)

end Format

/-! ## What is promised -/

/-- A control character other than a tab. -/
def Control (c : Char) : Prop := (c.toNat < 32 ∨ c.toNat = 127) ∧ c ≠ '\t'

/-- No control character but tabs. -/
def Clean (cs : List Char) : Prop := ∀ c ∈ cs, ¬ Control c

instance : DecidablePred Control := fun c =>
  inferInstanceAs (Decidable ((c.toNat < 32 ∨ c.toNat = 127) ∧ c ≠ '\t'))

instance (cs : List Char) : Decidable (Clean cs) :=
  decidable_of_iff (cs.all fun c => !decide (Control c)) (by simp [Clean])

/-- `HeaderValue`: it takes every text without control characters but tabs, and holds it. -/
structure HeaderValues {H : Type} (fromStr : String → Option H) (text : H → String) : Prop where
  accepts : ∀ s, (fromStr s).isSome = true ↔ Clean s.toList
  text_eq : ∀ s h, fromStr s = some h → text h = s

/-- The metric an entry stands for. -/
def metricOf {D : Type} (render : D → String) (e : Entry D) : Element :=
  ⟨e.name, ("dur", render e.dur) :: (e.desc.map fun desc => ("desc", desc)).toList⟩

/-- The metrics of a header: the entries with a token of the grammar as name, in order, and the
total. -/
def metrics {D : Type} (render : D → String) (entries : List (Entry D)) (total : D) :
    List Element :=
  (entries.filter fun e => e.name != "" && e.name.toList.all isTokenChar).map (metricOf render) ++
    [⟨"total", [("dur", render total)]⟩]

/-! ## One entry -/

theorem isValidToken_iff {s : String} :
    isValidToken s = true ↔ s ≠ "" ∧ ∀ c ∈ s.toList, isTokenChar c = true := by
  unfold isValidToken
  rw [Bool.and_eq_true, List.all_eq_true, Bool.not_eq_true', ← Bool.not_eq_true,
    String.isEmpty_iff]
  refine and_congr_right fun _ => forall₂_congr fun c _ => ?_
  simp only [isTokenChar, Bool.or_eq_true]
  tauto

theorem quotable_iff {c : Char} : isQuotable c = true ↔ ¬ Control c := by
  unfold isQuotable Control
  by_cases htab : c = '\t'
  · simp [htab]
  · simp only [Bool.or_eq_true, beq_iff_eq, htab, false_or, Bool.and_eq_true, decide_eq_true_eq,
      bne_iff_ne]
    constructor
    · rintro ⟨hlow, hdel⟩ ⟨hctl, -⟩
      omega
    · intro hctl
      have hnot : ¬ (c.toNat < 32 ∨ c.toNat = 127) := fun h => hctl ⟨h, htab⟩
      omega

/-- A character of a token is no control character. -/
theorem not_control_of_isTokenChar {c : Char} (h : isTokenChar c = true) : ¬ Control c := by
  rintro ⟨hctl, -⟩
  simp only [isTokenChar, Bool.or_eq_true, Bool.and_eq_true, decide_eq_true_eq, Char.le_def,
    UInt32.le_iff_toNat_le, List.contains_iff_mem] at h
  have hval : c.val.toNat = c.toNat := rfl
  rcases h with h | h
  · have hA : 'A'.val.toNat = 65 := rfl
    have hZ : 'Z'.val.toNat = 90 := rfl
    have ha : 'a'.val.toNat = 97 := rfl
    have hz : 'z'.val.toNat = 122 := rfl
    have h0 : '0'.val.toNat = 48 := rfl
    have h9 : '9'.val.toNat = 57 := rfl
    omega
  · have hlisted : ("!#$%&'*+-.^_`|~".toList.all fun d => 32 ≤ d.toNat && d.toNat < 127) =
        true := by
      decide
    have hprinted := List.all_eq_true.mp hlisted c h
    simp only [Bool.and_eq_true, decide_eq_true_eq] at hprinted
    omega

theorem clean_append {cs ds : List Char} : Clean (cs ++ ds) ↔ Clean cs ∧ Clean ds :=
  List.forall_mem_append

theorem clean_cons {c : Char} {cs : List Char} : Clean (c :: cs) ↔ ¬ Control c ∧ Clean cs :=
  List.forall_mem_cons

theorem clean_of_isValidToken {s : String} (h : isValidToken s = true) : Clean s.toList :=
  fun c hc => not_control_of_isTokenChar ((isValidToken_iff.mp h).2 c hc)

theorem clean_escape {cs : List Char} : Clean (escape cs) ↔ Clean cs := by
  unfold Clean escape
  constructor
  · intro h c hc
    refine h c (List.mem_flatMap.mpr ⟨c, hc, ?_⟩)
    split <;> simp
  · intro h c hc
    obtain ⟨d, hd, hc⟩ := List.mem_flatMap.mp hc
    by_cases hspecial : d = '"' ∨ d = '\\'
    · rw [if_pos hspecial] at hc
      rcases List.mem_cons.mp hc with rfl | hc
      · decide
      · exact List.mem_singleton.mp hc ▸ h d hd
    · rw [if_neg hspecial] at hc
      exact List.mem_singleton.mp hc ▸ h d hd

section Entries

variable {D : Type} {render : D → String}

theorem toList_pushEscaped (buf desc : String) :
    (pushEscaped buf desc).toList = buf.toList ++ escape desc.toList := by
  unfold pushEscaped escape
  generalize desc.toList = cs
  induction cs generalizing buf with
  | nil => simp
  | cons c cs ih =>
    rw [List.foldl_cons, ih, List.flatMap_cons]
    split <;> simp

/-- A parameter of a metric, as a token or quoted. -/
def paramText (name value : String) : List Char :=
  ';' :: (name.toList ++ '=' :: if isValidToken value then value.toList
    else '"' :: (escape value.toList ++ ['"']))

/-- The text of an entry. -/
def entryText (render : D → String) (e : Entry D) : List Char :=
  e.name.toList ++ paramText "dur" (render e.dur) ++
    (e.desc.map fun desc => paramText "desc" desc).getD []

theorem toList_writeEntry (hrender : ∀ d, isValidToken (render d) = true) (buf : String)
    (e : Entry D) : (writeEntry render buf e).toList = buf.toList ++ entryText render e := by
  unfold writeEntry entryText paramText
  cases e.desc with
  | none => simp [hrender]
  | some desc =>
    by_cases hd : isValidToken desc = true
    · simp [hrender, hd]
    · simp [hrender, hd, toList_pushEscaped]

theorem clean_paramText {name : String} (hname : Clean name.toList) (value : String) :
    Clean (paramText name value) ↔ Clean value.toList := by
  have hsemi : ¬ Control ';' := by decide
  have heq : ¬ Control '=' := by decide
  have hquote : ¬ Control '"' := by decide
  have hnil : Clean [] := by decide
  unfold paramText
  by_cases hv : isValidToken value = true
  · simp only [if_pos hv, clean_cons, clean_append, hsemi, hname, heq, not_false_eq_true, true_and]
  · simp only [if_neg hv, clean_cons, clean_append, clean_escape, hsemi, hname, heq, hquote, hnil,
      not_false_eq_true, true_and, and_true]

theorem clean_entryText {e : Entry D} (hrender : ∀ d, isValidToken (render d) = true)
    (hname : isValidToken e.name = true) :
    Clean (entryText render e) ↔ ∀ desc, e.desc = some desc → Clean desc.toList := by
  have hdur : Clean "dur".toList := by decide
  have hdesc : Clean "desc".toList := by decide
  have hnil : Clean [] := by decide
  unfold entryText
  rw [clean_append, clean_append, clean_paramText hdur]
  simp only [clean_of_isValidToken hname, clean_of_isValidToken (hrender e.dur), true_and]
  cases e.desc with
  | none => simp [hnil]
  | some desc => simp [clean_paramText hdesc]

/-- A clean value is written as a parameter, one way or the other. -/
theorem writes_paramText {text : List Char} {m : Element} (h : Writes text m) {name value : String}
    (hname : isValidToken name = true) (hvalue : Clean value.toList) :
    Writes (text ++ paramText name value) ⟨m.name, m.params ++ [(name, value)]⟩ := by
  obtain ⟨hne, hchars⟩ := isValidToken_iff.mp hname
  unfold paramText
  by_cases hv : isValidToken value = true
  · obtain ⟨hne', hchars'⟩ := isValidToken_iff.mp hv
    rw [if_pos hv]
    exact h.tokenParam hchars hne hchars' hne'
  · rw [if_neg hv]
    exact h.quotedParam hchars hne fun c hc => quotable_iff.mpr (hvalue c hc)

/-- **An entry with a clean description is written as its metric.** -/
theorem writes_entry {e : Entry D} (hrender : ∀ d, isValidToken (render d) = true)
    (hname : isValidToken e.name = true)
    (hclean : ∀ desc, e.desc = some desc → Clean desc.toList) :
    Writes (entryText render e) (metricOf render e) := by
  obtain ⟨hne, hchars⟩ := isValidToken_iff.mp hname
  have hdur : isValidToken "dur" = true := by decide
  have hdesc : isValidToken "desc" = true := by decide
  have hwrites := writes_paramText (Writes.token hchars hne) hdur
    (clean_of_isValidToken (hrender e.dur))
  unfold entryText metricOf
  cases hd : e.desc with
  | none => simpa using hwrites
  | some desc => exact writes_paramText hwrites hdesc (hclean desc hd)

/-! ## The header -/

/-- The entries that get a metric. -/
def named (entries : List (Entry D)) : List (Entry D) :=
  entries.filter fun e => isValidToken e.name

theorem metrics_eq (entries : List (Entry D)) (total : D) :
    metrics render entries total =
      (named entries).map (metricOf render) ++ [⟨"total", [("dur", render total)]⟩] := by
  unfold metrics named
  refine congrArg (fun es => List.map (metricOf render) es ++ _) (List.filter_congr fun e _ => ?_)
  rw [Bool.eq_iff_iff, isValidToken_iff, Bool.and_eq_true, bne_iff_ne, List.all_eq_true]

/-- The text of the total. -/
def totalText (render : D → String) (total : D) : List Char :=
  "total".toList ++ paramText "dur" (render total)

theorem entryText_ne_nil {e : Entry D} (hname : isValidToken e.name = true) :
    entryText render e ≠ [] := by
  obtain ⟨hne, -⟩ := isValidToken_iff.mp hname
  simp [entryText, hne]

/-- Once something is written, each entry comes after a comma and a blank. -/
theorem toList_foldl_writeEntry (hrender : ∀ d, isValidToken (render d) = true)
    (es : List (Entry D)) (buf : String) (hbuf : buf ≠ "") :
    (es.foldl (fun buf e => writeEntry render (separate buf) e) buf).toList =
      buf.toList ++ es.flatMap fun e => ',' :: ' ' :: entryText render e := by
  induction es generalizing buf with
  | nil => simp
  | cons e es ih =>
    have hsep : (separate buf).toList = buf.toList ++ [',', ' '] := by
      unfold separate
      rw [if_neg (by simpa using hbuf)]
      simp
    have hne : writeEntry render (separate buf) e ≠ "" := by
      intro h
      have hlist := congrArg String.toList h
      rw [toList_writeEntry hrender, hsep] at hlist
      simp at hlist
    rw [List.foldl_cons, ih _ hne, toList_writeEntry hrender, hsep, List.flatMap_cons]
    simp

/-- The text is that of the named entries and the total, joined by a comma and a blank. -/
theorem toList_formatText (hrender : ∀ d, isValidToken (render d) = true)
    (entries : List (Entry D)) (total : D) :
    ∃ text texts, (named entries).map (entryText render) ++ [totalText render total] =
        text :: texts ∧
      (formatText render entries total).toList =
        text ++ texts.flatMap fun t => ',' :: ' ' :: t := by
  have htotal : ∀ buf : String, (buf ++ "total;dur=" ++ render total).toList =
      buf.toList ++ totalText render total := by
    intro buf
    simp [totalText, paramText, hrender]
  unfold formatText
  simp only [htotal]
  have hnamed : ∀ e ∈ named entries, isValidToken e.name = true :=
    fun e he => (List.mem_filter.mp he).2
  show ∃ text texts, _ ∧ (separate ((named entries).foldl _ "")).toList ++ _ = _
  cases hes : named entries with
  | nil => exact ⟨totalText render total, [], rfl, by simp [separate]⟩
  | cons e es =>
    have hfirst : (writeEntry render (separate "") e).toList = entryText render e := by
      rw [toList_writeEntry hrender]
      rfl
    have hne : writeEntry render (separate "") e ≠ "" := by
      intro h
      rw [h] at hfirst
      exact entryText_ne_nil (hnamed e (by simp [hes])) hfirst.symm
    have hfold := toList_foldl_writeEntry hrender es _ hne
    refine ⟨entryText render e, es.map (entryText render) ++ [totalText render total], rfl, ?_⟩
    have hbuf : (es.foldl (fun buf e => writeEntry render (separate buf) e)
        (writeEntry render (separate "") e)) ≠ "" := by
      intro h
      rw [h, hfirst] at hfold
      exact entryText_ne_nil (hnamed e (by simp [hes])) (List.append_eq_nil_iff.mp hfold.symm).1
    rw [List.foldl_cons, separate, if_neg (by simpa using hbuf), String.toList_append, hfold,
      hfirst]
    simp [List.flatMap_append, List.flatMap_map]

theorem clean_joined {text : List Char} {texts : List (List Char)} :
    Clean (text ++ texts.flatMap fun t => ',' :: ' ' :: t) ↔ ∀ t ∈ text :: texts, Clean t := by
  have hcomma : ¬ Control ',' := by decide
  have hblank : ¬ Control ' ' := by decide
  rw [clean_append, List.forall_mem_cons]
  refine and_congr_right fun _ => ?_
  induction texts with
  | nil => simp [Clean]
  | cons t texts ih =>
    rw [List.flatMap_cons, clean_append, ih, List.forall_mem_cons, clean_cons, clean_cons]
    simp only [hcomma, hblank, not_false_eq_true, true_and]

/-- **When the header makes the round trip.** For all entries and every total: the header is there,
and a client reads from it the named entries, in order, and the total, iff no entry with a token as
name has a control character other than a tab in its description. -/
theorem header_round_trip_iff {H : Type} {fromStr : String → Option H} {text : H → String}
    (hvalues : HeaderValues fromStr text) (hrender : ∀ d, isValidToken (render d) = true)
    (entries : List (Entry D)) (total : D) :
    (∃ header, formatHeader render fromStr entries total = some header ∧
        readElements (text header).toList = some (metrics render entries total)) ↔
      ∀ e ∈ entries, isValidToken e.name = true → ∀ desc, e.desc = some desc →
        Clean desc.toList := by
  obtain ⟨first, texts, hall, htext⟩ := toList_formatText hrender entries total
  have hdur : isValidToken "dur" = true := by decide
  have htotalToken : isValidToken "total" = true := by decide
  have hnamed : ∀ e, e ∈ named entries ↔ e ∈ entries ∧ isValidToken e.name = true :=
    fun e => List.mem_filter
  have hclean : Clean (formatText render entries total).toList ↔
      ∀ e ∈ entries, isValidToken e.name = true → ∀ desc, e.desc = some desc →
        Clean desc.toList := by
    have htotal : Clean (totalText render total) :=
      clean_append.mpr ⟨clean_of_isValidToken htotalToken,
        (clean_paramText (clean_of_isValidToken hdur) _).mpr (clean_of_isValidToken (hrender _))⟩
    rw [htext, clean_joined, ← hall]
    simp only [List.forall_mem_append, List.forall_mem_map, List.forall_mem_singleton, htotal,
      and_true]
    constructor
    · intro h e he hname
      exact (clean_entryText hrender hname).mp (h e ((hnamed e).mpr ⟨he, hname⟩))
    · intro h e he
      obtain ⟨he, hname⟩ := (hnamed e).mp he
      exact (clean_entryText hrender hname).mpr (h e he hname)
  constructor
  · rintro ⟨header, hheader, -⟩
    rw [← hclean, ← hvalues.accepts]
    exact Option.isSome_iff_exists.mpr ⟨header, hheader⟩
  · intro h
    obtain ⟨header, hheader⟩ := Option.isSome_iff_exists.mp
      ((hvalues.accepts (formatText render entries total)).mpr (hclean.mpr h))
    refine ⟨header, hheader, ?_⟩
    rw [hvalues.text_eq _ _ hheader, htext]
    -- each text stands for its metric, the total included
    have hwrites : List.Forall₂ Writes (first :: texts) (metrics render entries total) := by
      obtain ⟨hne, hchars⟩ := isValidToken_iff.mp htotalToken
      rw [← hall, metrics_eq]
      refine List.rel_append ?_ (.cons (writes_paramText (Writes.token hchars hne) hdur
        (clean_of_isValidToken (hrender total))) .nil)
      refine List.forall₂_map_left_iff.mpr (List.forall₂_map_right_iff.mpr ?_)
      refine List.forall₂_same.mpr fun e he => ?_
      obtain ⟨he, hname⟩ := (hnamed e).mp he
      exact writes_entry hrender hname (h e he hname)
    cases hm : metrics render entries total with
    | nil =>
      rw [hm] at hwrites
      exact nomatch hwrites
    | cons m ms =>
      rw [hm] at hwrites
      cases hwrites with
      | cons hfirst hrest => exact readElements_join hfirst hrest

end Entries

/-- Whole milliseconds, as `{:.2}` prints them. -/
def renderMillis (ms : Nat) : String := String.ofList (Nat.toDigits 10 ms) ++ ".00"

/-- A `HeaderValue` as its text. -/
def textValue (s : String) : Option String := if Clean s.toList then some s else none

theorem renderMillis_token (ms : Nat) : isValidToken (renderMillis ms) = true := by
  rw [isValidToken_iff]
  unfold renderMillis
  constructor
  · intro h
    simpa using congrArg String.toList h
  · intro c hc
    rw [String.toList_append, String.toList_ofList] at hc
    rcases List.mem_append.mp hc with hc | hc
    · have hdigit := Nat.isDigit_of_mem_toDigits (by decide) (by decide) hc
      obtain ⟨hlow, hhigh⟩ := Char.isDigit_iff_toNat.mp hdigit
      have hle : '0' ≤ c := hlow
      have hge : c ≤ '9' := hhigh
      simp only [isTokenChar, hle, hge, decide_true, Bool.and_true, Bool.true_or]
    · have hdot : ".00".toList.all isTokenChar = true := by decide
      exact List.all_eq_true.mp hdot c hc

theorem headerValues_textValue : HeaderValues textValue id where
  accepts s := by
    unfold textValue
    split <;> simp [*]
  text_eq s h hs := by
    unfold textValue at hs
    split at hs
    · exact (Option.some.inj hs).symm
    · exact nomatch hs

/-- A quoted description with quotes, a comma and a semicolon comes back as it was, and the entry
whose name is no token is dropped. -/
theorem quotedEntry_read :
    ∃ header, formatHeader renderMillis textValue
        [⟨"db", some "users, \"primary\"; slow", 5⟩, ⟨"two words", none, 1⟩] 20 = some header ∧
      readElements header.toList = some (metrics renderMillis
        [⟨"db", some "users, \"primary\"; slow", 5⟩, ⟨"two words", none, 1⟩] 20) :=
  (header_round_trip_iff headerValues_textValue renderMillis_token
    [⟨"db", some "users, \"primary\"; slow", 5⟩, ⟨"two words", none, 1⟩] 20).mpr (by decide)

/-- One description with a line break, and there is no header: `cache` and the total are lost as
well. -/
theorem lineBreak_loses_header :
    formatHeader renderMillis textValue [⟨"db", some "users\nprimary", 5⟩, ⟨"cache", none, 1⟩] 20 =
        none ∧
      ¬ ∃ header, formatHeader renderMillis textValue
          [⟨"db", some "users\nprimary", 5⟩, ⟨"cache", none, 1⟩] 20 = some header ∧
        readElements header.toList = some (metrics renderMillis
          [⟨"db", some "users\nprimary", 5⟩, ⟨"cache", none, 1⟩] 20) := by
  have hnone : formatHeader renderMillis textValue
      [⟨"db", some "users\nprimary", 5⟩, ⟨"cache", none, 1⟩] 20 = none := by decide
  refine ⟨hnone, ?_⟩
  rintro ⟨header, hheader, -⟩
  rw [hnone] at hheader
  exact nomatch hheader

end Nestrs.ServerTiming
