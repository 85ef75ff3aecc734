import Mathlib.Data.List.Basic

/-!
# Lists of parameterised tokens in header fields

The grammar that several HTTP fields share: a comma-separated list of elements, each a token with
parameters `;name=value`, where a value is a token or a quoted string with backslash escapes, and
blanks may stand around the separators. Empty list elements are skipped.

`readElements` reads such a text: `lex` cuts it into lexemes, in one pass over the characters, and
commas then separate the elements. `Writes t e` says that a text stands for an element wherever it
is followed by a separator or by the end; it is closed under adding parameters.

Results:
* `Writes.token`, `Writes.tokenParam`, `Writes.quotedParam`: how an element is written;
* **`readElements_join`**: a text of elements joined by `, ` is read as those elements.
-/

namespace Nestrs.Lib

/-! ## The grammar -/

/-- `tchar`: letters, digits and these. -/
def isTokenChar (c : Char) : Bool :=
  ('0' ≤ c && c ≤ '9') || ('A' ≤ c && c ≤ 'Z') || ('a' ≤ c && c ≤ 'z') ||
    "!#$%&'*+-.^_`|~".toList.contains c

/-- What a quoted pair may hold: a tab, or anything that is not a control character. -/
def isQuotable (c : Char) : Bool := c == '\t' || (32 ≤ c.toNat && c.toNat != 127)

inductive Lexeme where
  | token (text : String)
  | quoted (text : String)
  | comma
  | semicolon
  | equals
deriving DecidableEq, Repr

/-- Where the reader is: between two lexemes, or inside one with what it has read of it. -/
inductive LexMode where
  | between
  | token (read : List Char)
  | quoted (read : List Char)
  | escaped (read : List Char)

/-- A character that ends a token, or stands between two lexemes. -/
def delimiter (c : Char) : Option (List Lexeme × LexMode) :=
  match c with
  | ',' => some ([.comma], .between)
  | ';' => some ([.semicolon], .between)
  | '=' => some ([.equals], .between)
  | '"' => some ([], .quoted [])
  | ' ' | '\t' => some ([], .between)
  | _ => none

/-- The lexemes of a text, if it is made of such. -/
def lex : LexMode → List Char → Option (List Lexeme)
  | .between, [] => some []
  | .token read, [] => some [.token (.ofList read)]
  | .quoted _, [] => none
  | .escaped _, [] => none
  | .between, c :: cs =>
    if isTokenChar c then lex (.token [c]) cs
    else (delimiter c).bind fun d => (lex d.2 cs).map (d.1 ++ ·)
  | .token read, c :: cs =>
    if isTokenChar c then lex (.token (read ++ [c])) cs
    else (delimiter c).bind fun d => (lex d.2 cs).map (.token (.ofList read) :: d.1 ++ ·)
  | .quoted read, c :: cs =>
    if c = '"' then (lex .between cs).map (.quoted (.ofList read) :: ·)
    else if c = '\\' then lex (.escaped read) cs
    else if isQuotable c then lex (.quoted (read ++ [c])) cs
    else none
  | .escaped read, c :: cs => if isQuotable c then lex (.quoted (read ++ [c])) cs else none

/-- An element of a list: a token and its parameters. -/
structure Element where
  name : String
  params : List (String × String)
deriving DecidableEq, Repr

def readParams : List Lexeme → Option (List (String × String))
  | [] => some []
  | .semicolon :: .token name :: .equals :: .token value :: rest =>
    (readParams rest).map ((name, value) :: ·)
  | .semicolon :: .token name :: .equals :: .quoted value :: rest =>
    (readParams rest).map ((name, value) :: ·)
  | _ => none

def readElement : List Lexeme → Option Element
  | .token name :: rest => (readParams rest).map fun params => ⟨name, params⟩
  | _ => none

/-- The elements of a list that is not empty. -/
def readElements (text : List Char) : Option (List Element) :=
  (lex .between text).bind fun lexemes =>
    ((lexemes.splitOn .comma).filter fun e => !e.isEmpty).mapM readElement

/-- The text of a quoted string, between the quotes. -/
def escape (text : List Char) : List Char :=
  text.flatMap fun c => if c = '"' ∨ c = '\\' then ['\\', c] else [c]

example : readElements "a;q=1 ,, b ;t=\"x, \\\"y\"".toList =
    some [⟨"a", [("q", "1")]⟩, ⟨"b", [("t", "x, \"y")]⟩] := by decide

/-! ## Reading lexemes -/

/-- Nothing that would prolong a token follows. -/
def Delimited (rest : List Char) : Prop := ∀ c ∈ rest.head?, isTokenChar c = false

theorem lex_token_append {w rest : List Char} (hw : ∀ c ∈ w, isTokenChar c = true)
    (hrest : Delimited rest) (read : List Char) :
    lex (.token read) (w ++ rest) =
      (lex .between rest).map (.token (.ofList (read ++ w)) :: ·) := by
  induction w generalizing read with
  | nil =>
    cases rest with
    | nil => simp [lex]
    | cons c rest =>
      have hc : isTokenChar c = false := hrest c rfl
      rw [List.nil_append, lex, lex, List.append_nil, hc]
      cases delimiter c with
      | none => rfl
      | some d => cases hl : lex d.2 rest <;> simp [hl]
  | cons c w ih =>
    obtain ⟨hc, hw⟩ := List.forall_mem_cons.mp hw
    rw [List.cons_append, lex, if_pos hc, ih hw, List.append_assoc]
    rfl

theorem lex_token {w rest : List Char} (hw : ∀ c ∈ w, isTokenChar c = true) (hne : w ≠ [])
    (hrest : Delimited rest) :
    lex .between (w ++ rest) = (lex .between rest).map (.token (.ofList w) :: ·) := by
  cases w with
  | nil => exact absurd rfl hne
  | cons c w =>
    obtain ⟨hc, hw⟩ := List.forall_mem_cons.mp hw
    rw [List.cons_append, lex, if_pos hc, lex_token_append hw hrest]
    rfl

theorem lex_quoted {w : List Char} (hw : ∀ c ∈ w, isQuotable c = true) (rest read : List Char) :
    lex (.quoted read) (escape w ++ '"' :: rest) =
      (lex .between rest).map (.quoted (.ofList (read ++ w)) :: ·) := by
  induction w generalizing read with
  | nil =>
    rw [escape, List.flatMap_nil, List.nil_append, lex, if_pos rfl, List.append_nil]
  | cons c w ih =>
    obtain ⟨hc, hw⟩ := List.forall_mem_cons.mp hw
    have hstep : lex (.quoted read) (escape (c :: w) ++ '"' :: rest) =
        lex (.quoted (read ++ [c])) (escape w ++ '"' :: rest) := by
      by_cases hspecial : c = '"' ∨ c = '\\'
      · have hesc : escape (c :: w) = '\\' :: c :: escape w := by
          rw [escape, List.flatMap_cons, if_pos hspecial]
          rfl
        rw [hesc, List.cons_append, lex, if_neg (by decide), if_pos rfl, List.cons_append, lex,
          if_pos hc]
      · have hesc : escape (c :: w) = c :: escape w := by
          rw [escape, List.flatMap_cons, if_neg hspecial]
          rfl
        rw [hesc, List.cons_append, lex, if_neg fun h => hspecial (Or.inl h),
          if_neg fun h => hspecial (Or.inr h), if_pos hc]
    rw [hstep, ih hw, List.append_assoc]
    rfl

/-! ## Writing elements -/

theorem readParams_append {ls ms : List Lexeme} {ps : List (String × String)}
    (h : readParams ls = some ps) : readParams (ls ++ ms) = (readParams ms).map (ps ++ ·) := by
  fun_induction readParams ls generalizing ps with
  | case1 =>
    cases h
    simp
  | case2 name value rest ih =>
    obtain ⟨qs, hqs, rfl⟩ := Option.map_eq_some_iff.mp h
    simp [readParams, ih hqs, Function.comp_def]
  | case3 name value rest ih =>
    obtain ⟨qs, hqs, rfl⟩ := Option.map_eq_some_iff.mp h
    simp [readParams, ih hqs, Function.comp_def]
  | case4 => exact nomatch h

theorem readElement_append {ls ms : List Lexeme} {e : Element} {ps : List (String × String)}
    (h : readElement ls = some e) (hps : readParams ms = some ps) :
    readElement (ls ++ ms) = some ⟨e.name, e.params ++ ps⟩ := by
  cases ls with
  | nil => exact nomatch h
  | cons l ls =>
    cases l with
    | token name =>
      obtain ⟨qs, hqs, rfl⟩ := Option.map_eq_some_iff.mp h
      rw [List.cons_append, readElement, readParams_append hqs, hps]
      rfl
    | _ => exact nomatch h

/-- The text stands for the element, whatever comes after it that does not prolong a token. -/
def Writes (text : List Char) (e : Element) : Prop :=
  ∃ ls, readElement ls = some e ∧ Lexeme.comma ∉ ls ∧ ∀ rest, Delimited rest →
    lex .between (text ++ rest) = (lex .between rest).map (ls ++ ·)

namespace Writes

theorem token {name : String} (hname : ∀ c ∈ name.toList, isTokenChar c = true)
    (hne : name ≠ "") : Writes name.toList ⟨name, []⟩ := by
  refine ⟨[.token name], rfl, by simp, fun rest hrest => ?_⟩
  rw [lex_token hname (by simpa using hne) hrest, String.ofList_toList]
  rfl

/-- The start of a parameter, up to its value. -/
theorem lex_param {name : String} (hname : ∀ c ∈ name.toList, isTokenChar c = true)
    (hne : name ≠ "") (rest : List Char) :
    lex .between (';' :: (name.toList ++ '=' :: rest)) =
      (lex .between rest).map (.semicolon :: .token name :: .equals :: ·) := by
  have heq : lex .between ('=' :: rest) = (lex .between rest).map (.equals :: ·) := rfl
  have hsemi : ∀ cs, lex .between (';' :: cs) = (lex .between cs).map (.semicolon :: ·) :=
    fun _ => rfl
  have hdelimited : Delimited ('=' :: rest) := by
    intro c hc
    cases hc
    decide
  rw [hsemi, lex_token hname (by simpa using hne) hdelimited, heq, String.ofList_toList,
    Option.map_map, Option.map_map]
  rfl

variable {text : List Char} {e : Element} {name value : String}

/-- A parameter whose text is read as these lexemes may follow. -/
theorem append {text' : List Char} {ls : List Lexeme} {ps : List (String × String)}
    (h : Writes text e) (hps : readParams ls = some ps) (hcomma : Lexeme.comma ∉ ls)
    (hstart : ∀ rest, Delimited (text' ++ rest))
    (hlex : ∀ rest, Delimited rest →
      lex .between (text' ++ rest) = (lex .between rest).map (ls ++ ·)) :
    Writes (text ++ text') ⟨e.name, e.params ++ ps⟩ := by
  obtain ⟨ms, helement, hms, hread⟩ := h
  refine ⟨ms ++ ls, readElement_append helement hps, by simp [hms, hcomma], fun rest hrest => ?_⟩
  rw [List.append_assoc, hread _ (hstart rest), hlex rest hrest, Option.map_map]
  simp [Function.comp_def]

theorem tokenParam (h : Writes text e) (hname : ∀ c ∈ name.toList, isTokenChar c = true)
    (hne : name ≠ "") (hvalue : ∀ c ∈ value.toList, isTokenChar c = true) (hne' : value ≠ "") :
    Writes (text ++ ';' :: (name.toList ++ '=' :: value.toList))
      ⟨e.name, e.params ++ [(name, value)]⟩ := by
  have hparam : readParams [.semicolon, .token name, .equals, .token value] =
      some [(name, value)] := rfl
  refine h.append hparam (by simp) ?_ ?_
  · intro rest c hc
    cases hc
    decide
  · intro rest hrest
    rw [List.cons_append, List.append_assoc, List.cons_append, lex_param hname hne,
      lex_token hvalue (by simpa using hne') hrest, String.ofList_toList, Option.map_map]
    rfl

theorem quotedParam (h : Writes text e) (hname : ∀ c ∈ name.toList, isTokenChar c = true)
    (hne : name ≠ "") (hvalue : ∀ c ∈ value.toList, isQuotable c = true) :
    Writes (text ++ ';' :: (name.toList ++ '=' :: '"' :: (escape value.toList ++ ['"'])))
      ⟨e.name, e.params ++ [(name, value)]⟩ := by
  have hparam : readParams [.semicolon, .token name, .equals, .quoted value] =
      some [(name, value)] := rfl
  refine h.append hparam (by simp) ?_ ?_
  · intro rest c hc
    cases hc
    decide
  · intro rest _
    have hopen : ∀ cs, lex .between ('"' :: cs) = lex (.quoted []) cs := by
      intro cs
      rw [lex, if_neg (by decide)]
      simp [delimiter]
    rw [List.cons_append, List.append_assoc, List.cons_append, lex_param hname hne,
      List.cons_append, hopen, List.append_assoc, List.cons_append, List.nil_append,
      lex_quoted hvalue, List.nil_append, String.ofList_toList, Option.map_map]
    rfl

end Writes

theorem delimited_joined (texts : List (List Char)) :
    Delimited (texts.flatMap fun t => ',' :: ' ' :: t) := by
  cases texts with
  | nil => exact fun c hc => nomatch hc
  | cons t texts =>
    intro c hc
    cases hc
    decide

/-- More elements, each after a comma and a blank. -/
theorem exists_lexemes {texts : List (List Char)} {es : List Element}
    (h : List.Forall₂ Writes texts es) :
    ∃ lss : List (List Lexeme), lss.mapM readElement = some es ∧
      (∀ ls ∈ lss, Lexeme.comma ∉ ls) ∧
      lex .between (texts.flatMap fun t => ',' :: ' ' :: t) =
        some (lss.flatMap fun ls => .comma :: ls) := by
  induction h with
  | nil => exact ⟨[], rfl, by simp, rfl⟩
  | @cons t e texts es hw _ ih =>
    obtain ⟨ls, helement, hcomma, hread⟩ := hw
    obtain ⟨lss, hes, hnone, hlex⟩ := ih
    refine ⟨ls :: lss, by simp [helement, hes], by simpa using ⟨hcomma, hnone⟩, ?_⟩
    have hsep : ∀ cs, lex .between (',' :: ' ' :: cs) = (lex .between cs).map (.comma :: ·) := by
      intro cs
      rw [lex, if_neg (by decide)]
      simp only [delimiter, Option.bind_some]
      rw [lex, if_neg (by decide)]
      simp [delimiter]
    rw [List.flatMap_cons, List.cons_append, List.cons_append, hsep,
      hread _ (delimited_joined texts), hlex]
    rfl

theorem splitOn_joined {ls : List Lexeme} {lss : List (List Lexeme)} (hls : Lexeme.comma ∉ ls)
    (h : ∀ ms ∈ lss, Lexeme.comma ∉ ms) :
    (ls ++ lss.flatMap fun ms => .comma :: ms).splitOn .comma = ls :: lss := by
  induction lss generalizing ls with
  | nil => simpa using List.splitOn_eq_singleton hls
  | cons ms lss ih =>
    obtain ⟨hms, hlss⟩ := List.forall_mem_cons.mp h
    rw [List.flatMap_cons, List.cons_append,
      List.splitOn_append_cons_self_of_not_mem hls, ih hms hlss]

/-- Lexemes that are read as elements are none of them empty. -/
theorem filter_of_mapM {lss : List (List Lexeme)} {es : List Element}
    (h : lss.mapM readElement = some es) : (lss.filter fun ls => !ls.isEmpty) = lss := by
  refine List.filter_eq_self.mpr fun ls hls => ?_
  cases ls with
  | cons l ls => rfl
  | nil =>
    exfalso
    induction lss generalizing es with
    | nil => exact absurd hls List.not_mem_nil
    | cons ms lss ih =>
      rw [List.mapM_cons, Option.bind_eq_bind, Option.bind_eq_some_iff] at h
      obtain ⟨e, he, h⟩ := h
      rcases List.mem_cons.mp hls with rfl | hls
      · exact nomatch he
      · obtain ⟨es', hes', -⟩ := Option.bind_eq_some_iff.mp h
        exact ih hes' hls

/-- **A list of elements is read as it was written**: texts of elements, joined by a comma and a
blank. -/
theorem readElements_join {text : List Char} {e : Element} {texts : List (List Char)}
    {es : List Element} (h : Writes text e) (hs : List.Forall₂ Writes texts es) :
    readElements (text ++ texts.flatMap fun t => ',' :: ' ' :: t) = some (e :: es) := by
  obtain ⟨ls, helement, hcomma, hread⟩ := h
  obtain ⟨lss, hes, hnone, hlex⟩ := exists_lexemes hs
  have hall : (ls :: lss).mapM readElement = some (e :: es) := by
    simp [helement, hes]
  unfold readElements
  rw [hread _ (delimited_joined texts), hlex, Option.map_some, Option.bind_some,
    splitOn_joined hcomma hnone, filter_of_mapM hall, hall]

end Nestrs.Lib
