import Nestrs.Authz.RuleOrder
import Nestrs.Crud.Http

/-!
# The masking of a response, byte for byte

Model of `mask_response` (`crates/nestrs-authz-http/src/shape.rs`) as it runs on the wire: a
response with its headers and a body of bytes. `Crud.maskResponse` is the same function on the
values a generated operation answers with; `maskResponse_renders` connects the two.

* A response that is no success, or whose content type does not start with `application/json`, is
  left alone, and so is one whose body cannot be read (its body is gone by then).
* The first byte that is no ASCII whitespace decides: `[` parses the body into models, `{` into
  one model, and with any other byte the body is put back.
* A body that does not parse, or a masked value that does not print, answers with a fresh `500`.

`serde_json` is not in the repository. `SerdeJson` is its reading of a text into a value and its
printing of a value, with the one law the code relies on: what was printed reads back. A typed
`from_slice` reads the text and then deserializes the value, the items of a `Vec` one by one.

Results:
* `shownAs_mask`: the keys of a masked model are those it serializes that some matching grant lets
  through, with their values;
* `maskBytes_array`, `maskBytes_object`, `maskBytes_scalar`: what each branch answers with;
* **`mask_response_exact`**: the three ways a readable successful JSON response comes back;
* `maskResponse_renders`: on the bytes of a generated answer this is the value-level masking.
-/

namespace Nestrs.Crud.Shape

open Nestrs.Authz Nestrs.Orm Nestrs.Http

/-- `serde_json::from_slice` into a `Value` and `serde_json::to_vec` of one. -/
structure SerdeJson where
  fromSlice : List UInt8 → Option Json
  toVec : Json → Option (List UInt8)
  fromSlice_toVec : ∀ {v : Json} {text : List UInt8}, toVec v = some text →
    fromSlice text = some v

/-- `poem::Response`. The body is the stream's bytes, or the error it ends with. -/
structure RawResponse where
  status : Nat
  headers : List (String × String)
  body : Except String (List UInt8)

/-- `Response::content_type`. -/
def RawResponse.contentType (resp : RawResponse) : Option String :=
  resp.headers.lookup "content-type"

/-- The test `is_json` of `mask_response`. -/
def RawResponse.isJson (resp : RawResponse) : Bool :=
  resp.contentType.any fun ct => "application/json".toList.isPrefixOf ct.toList

/-- `u8::is_ascii_whitespace`: space, tab, line feed, form feed, carriage return. -/
def isAsciiWhitespace (b : UInt8) : Bool :=
  b == 0x20 || b == 0x09 || b == 0x0A || b == 0x0C || b == 0x0D

/-- The first byte that is not whitespace. -/
def firstByte (bytes : List UInt8) : Option UInt8 := bytes.find? fun b => !isAsciiWhitespace b

/-- The answer of a response that cannot be masked. -/
def maskingFailed : RawResponse where
  status := 500
  headers := []
  body := .ok
    ("response masking failed: body did not match the authorized subject type").toUTF8.toList

section Mask

variable {σ : Schema} {subject : TypeId} (serde : SerdeJson)
  (deserialize : Json → Option (Model σ subject)) (serialize : Model σ subject → Option Json)

/-- `serde_json::from_slice::<Vec<S::Model>>`. -/
def fromSliceVec (bytes : List UInt8) : Option (List (Model σ subject)) :=
  match serde.fromSlice bytes with
  | some (.array items) => items.mapM deserialize
  | _ => none

/-- `serde_json::from_slice::<S::Model>`. -/
def fromSliceModel (bytes : List UInt8) : Option (Model σ subject) :=
  (serde.fromSlice bytes).bind deserialize

/-- The last match of `mask_response`: print the masked value, or fail closed. -/
def finish (resp : RawResponse) (masked : Option Json) : RawResponse :=
  match masked.bind serde.toVec with
  | some out => { resp with body := .ok out }
  | none => maskingFailed

/-- What `mask_response` does with the bytes it has read. -/
def maskBytes (ability : Ability) (action : Action) (resp : RawResponse) (bytes : List UInt8) :
    RawResponse :=
  match firstByte bytes with
  | some 0x5B => finish serde resp
      ((fromSliceVec serde deserialize bytes).map fun models =>
        .array (ability.maskMany serialize action models))
  | some 0x7B => finish serde resp
      ((fromSliceModel serde deserialize bytes).map fun model =>
        ability.mask serialize action model)
  | _ => { resp with body := .ok bytes }

/-- `mask_response`. -/
def maskResponse (ability : Ability) (action : Action) (resp : RawResponse) : RawResponse :=
  if !isSuccess resp.status then resp
  else if !resp.isJson then resp
  else match resp.body with
    | .error _ => { resp with body := .ok [] }
    | .ok bytes => maskBytes serde deserialize serialize ability action resp bytes

/-! ## What a masked model shows -/

/-- `v` shows of the model exactly what the ability permits: of an object, the entries whose key is
permitted, in order and with their values. A model that serializes to no object has no fields. -/
def ShownAs (ability : Ability) (action : Action) (model : Model σ subject) (v : Json) : Prop :=
  match (serialize model).getD .null with
  | .object map => ∃ shown, v = .object shown ∧ shown.Sublist map ∧
      ∀ kv, kv ∈ shown ↔ kv ∈ map ∧
        ∃ r ∈ ability.rulesFor action subject, Ability.Grants model.get r ∧ kv.1 ∈ r.fields
  | json => v = json

variable {serde deserialize serialize} {ability : Ability} {action : Action}

theorem shownAs_mask (model : Model σ subject) :
    ShownAs serialize ability action model (ability.mask serialize action model) := by
  unfold ShownAs Ability.mask
  cases hjson : (serialize model).getD .null with
  | object map =>
    simp only [← Ability.mem_permittedFields]
    cases hfields : ability.permittedFields action model with
    | all => exact ⟨map, rfl, List.Sublist.refl map, fun kv => by simp⟩
    | only allowed => exact ⟨_, rfl, List.filter_sublist, fun kv => by simp⟩
  | null => cases ability.permittedFields action model <;> rfl
  | bool b => cases ability.permittedFields action model <;> rfl
  | number text => cases ability.permittedFields action model <;> rfl
  | string s => cases ability.permittedFields action model <;> rfl
  | array items => cases ability.permittedFields action model <;> rfl

/-- `mask_many` shows the models `can` accepts, in order, each as permitted. -/
theorem shownAs_maskMany (models : List (Model σ subject)) :
    List.Forall₂ (ShownAs serialize ability action)
      (models.filter fun m => ability.can action m)
      (ability.maskMany serialize action models) := by
  unfold Ability.maskMany
  rw [List.forall₂_map_right_iff, List.forall₂_same]
  exact fun m _ => shownAs_mask m

/-! ## The branches -/

variable {resp : RawResponse} {bytes : List UInt8}

/-- A readable successful JSON response reaches the dispatch on its first byte. -/
theorem maskResponse_eq (hok : isSuccess resp.status = true) (hjson : resp.isJson = true)
    (hbody : resp.body = .ok bytes) :
    maskResponse serde deserialize serialize ability action resp =
      maskBytes serde deserialize serialize ability action resp bytes := by
  unfold maskResponse
  rw [hok, hjson, hbody]
  rfl

theorem maskBytes_array (hfirst : firstByte bytes = some 0x5B) :
    maskBytes serde deserialize serialize ability action resp bytes =
      finish serde resp ((fromSliceVec serde deserialize bytes).map fun models =>
        .array (ability.maskMany serialize action models)) := by
  simp only [maskBytes, hfirst]

theorem maskBytes_object (hfirst : firstByte bytes = some 0x7B) :
    maskBytes serde deserialize serialize ability action resp bytes =
      finish serde resp ((fromSliceModel serde deserialize bytes).map fun model =>
        ability.mask serialize action model) := by
  simp only [maskBytes, hfirst]

theorem maskBytes_scalar (hbody : resp.body = .ok bytes) (harray : firstByte bytes ≠ some 0x5B)
    (hobject : firstByte bytes ≠ some 0x7B) :
    maskBytes serde deserialize serialize ability action resp bytes = resp := by
  unfold maskBytes
  split
  · exact absurd ‹_› harray
  · exact absurd ‹_› hobject
  · rw [← hbody]

theorem finish_of_printed {v : Json} {text : List UInt8} (h : serde.toVec v = some text) :
    finish serde resp (some v) = { resp with body := .ok text } := by
  unfold finish
  rw [Option.bind_some, h]

theorem finish_eq_failed {masked : Option Json}
    (h : ∀ v, masked = some v → serde.toVec v = none) :
    finish serde resp masked = maskingFailed := by
  unfold finish
  cases masked with
  | none => rfl
  | some v => rw [Option.bind_some, h v rfl]

/-- The bytes open with `b`, after whitespace. -/
def Opens (bytes : List UInt8) (b : UInt8) : Prop :=
  ∃ blanks rest, bytes = blanks ++ b :: rest ∧ ∀ x ∈ blanks, isAsciiWhitespace x = true

theorem opens_iff {bytes : List UInt8} {b : UInt8} (hb : isAsciiWhitespace b = false) :
    Opens bytes b ↔ firstByte bytes = some b := by
  simp [Opens, firstByte, List.find?_eq_some_iff_append, hb]

/-- The ways a response whose body is `bytes` may come back masked. -/
inductive MaskedAs (serde : SerdeJson) (deserialize : Json → Option (Model σ subject))
    (serialize : Model σ subject → Option Json) (ability : Ability) (action : Action)
    (resp : RawResponse) (bytes : List UInt8) : RawResponse → Prop
  /-- A fixed answer, where an array does not parse into models or does not print masked. -/
  | arrayFailed (first : Opens bytes 0x5B)
      (unprinted : ∀ models, fromSliceVec serde deserialize bytes = some models →
        serde.toVec (.array (ability.maskMany serialize action models)) = none) :
      MaskedAs serde deserialize serialize ability action resp bytes maskingFailed
  /-- The same fixed answer, where an object does not. -/
  | objectFailed (first : Opens bytes 0x7B)
      (unprinted : ∀ model, fromSliceModel serde deserialize bytes = some model →
        serde.toVec (ability.mask serialize action model) = none) :
      MaskedAs serde deserialize serialize ability action resp bytes maskingFailed
  /-- Neither an array nor an object: unchanged. -/
  | scalar (notArray : ¬ Opens bytes 0x5B) (notObject : ¬ Opens bytes 0x7B) :
      MaskedAs serde deserialize serialize ability action resp bytes resp
  /-- An array: the text of the models that pass the instance check, in order, each as shown. -/
  | array (first : Opens bytes 0x5B) (models : List (Model σ subject))
      (parsed : fromSliceVec serde deserialize bytes = some models) (shown : List Json)
      (items : List.Forall₂ (ShownAs serialize ability action)
        (models.filter fun m => ability.can action m) shown)
      (text : List UInt8) (printed : serde.toVec (.array shown) = some text)
      (read : serde.fromSlice text = some (.array shown)) :
      MaskedAs serde deserialize serialize ability action resp bytes
        { resp with body := .ok text }
  /-- An object: the text of its one model as shown. -/
  | object (first : Opens bytes 0x7B) (model : Model σ subject)
      (parsed : fromSliceModel serde deserialize bytes = some model) (shown : Json)
      (item : ShownAs serialize ability action model shown)
      (text : List UInt8) (printed : serde.toVec shown = some text)
      (read : serde.fromSlice text = some shown) :
      MaskedAs serde deserialize serialize ability action resp bytes
        { resp with body := .ok text }

/-- **Response masking is exact and fails closed.** A successful JSON response whose body can be
read comes back as a fixed `500`, unchanged when it opens neither an array nor an object, or with
the status and headers it had and the printed text of its models, those of an array cut down to the
ones `can` accepts, each with exactly the permitted entries. -/
theorem mask_response_exact (serde : SerdeJson) (deserialize : Json → Option (Model σ subject))
    (serialize : Model σ subject → Option Json) (ability : Ability) (action : Action)
    (resp : RawResponse) (bytes : List UInt8) (hok : isSuccess resp.status = true)
    (hjson : resp.isJson = true) (hbody : resp.body = .ok bytes) :
    MaskedAs serde deserialize serialize ability action resp bytes
      (maskResponse serde deserialize serialize ability action resp) := by
  rw [maskResponse_eq hok hjson hbody]
  by_cases harray : firstByte bytes = some 0x5B
  · rw [maskBytes_array harray]
    cases hparsed : fromSliceVec serde deserialize bytes with
    | none =>
      rw [finish_eq_failed (by simp)]
      exact .arrayFailed ((opens_iff rfl).mpr harray) (by simp [hparsed])
    | some models =>
      rw [Option.map_some]
      cases hprinted : serde.toVec (.array (ability.maskMany serialize action models)) with
      | none =>
        rw [finish_eq_failed (by simpa using hprinted)]
        exact .arrayFailed ((opens_iff rfl).mpr harray) (by simpa [hparsed] using hprinted)
      | some text =>
        rw [finish_of_printed hprinted]
        exact .array ((opens_iff rfl).mpr harray) models hparsed _ (shownAs_maskMany models) text
          hprinted (serde.fromSlice_toVec hprinted)
  · by_cases hobject : firstByte bytes = some 0x7B
    · rw [maskBytes_object hobject]
      cases hparsed : fromSliceModel serde deserialize bytes with
      | none =>
        rw [finish_eq_failed (by simp)]
        exact .objectFailed ((opens_iff rfl).mpr hobject) (by simp [hparsed])
      | some model =>
        rw [Option.map_some]
        cases hprinted : serde.toVec (ability.mask serialize action model) with
        | none =>
          rw [finish_eq_failed (by simpa using hprinted)]
          exact .objectFailed ((opens_iff rfl).mpr hobject) (by simpa [hparsed] using hprinted)
        | some text =>
          rw [finish_of_printed hprinted]
          exact .object ((opens_iff rfl).mpr hobject) model hparsed _ (shownAs_mask model) text
            hprinted (serde.fromSlice_toVec hprinted)
    · rw [maskBytes_scalar hbody harray hobject]
      exact .scalar (fun h => harray ((opens_iff rfl).mp h)) fun h => hobject ((opens_iff rfl).mp h)

end Mask

/-! ## One row on the wire -/

/-- Rows of owner 5 are readable, by their owner column only. -/
def ownerOnly : List RuleSpec :=
  [((RuleSpec.can .read 0).when (.eq "owner" (.int (some 5)))).withFields ["owner"]]

/-- The row as it serializes: `{"owner":5,"locked":0}`. -/
def ownedJson : Json := .object [("owner", .number "5"), ("locked", .number "0")]

/-- `[{"owner":5,"locked":0}]`. -/
def ownedText : List UInt8 :=
  [0x5B, 0x7B, 0x22, 0x6F, 0x77, 0x6E, 0x65, 0x72, 0x22, 0x3A, 0x35, 0x2C, 0x22, 0x6C, 0x6F, 0x63,
    0x6B, 0x65, 0x64, 0x22, 0x3A, 0x30, 0x7D, 0x5D]

/-- `[{"owner":5}]`. -/
def shownText : List UInt8 :=
  [0x5B, 0x7B, 0x22, 0x6F, 0x77, 0x6E, 0x65, 0x72, 0x22, 0x3A, 0x35, 0x7D, 0x5D]

/-- `serde_json` on these two texts. -/
def ownedSerde : SerdeJson where
  fromSlice bytes :=
    if bytes = ownedText then some (.array [ownedJson])
    else if bytes = shownText then some (.array [.object [("owner", .number "5")]])
    else none
  toVec
    | .array [.object [("owner", .number "5")]] => some shownText
    | _ => none
  fromSlice_toVec := by
    intro v text h
    split at h
    · obtain rfl := Option.some.inj h
      rw [if_neg (by decide), if_pos rfl]
    · cases h

/-- A handler's answer with the owned row in full. -/
def ownedResponse : RawResponse where
  status := 200
  headers := [("content-type", "application/json; charset=utf-8")]
  body := .ok ownedText

theorem ownedResponse_masked :
    firstByte ownedText = some 0x5B ∧
      MaskedAs ownedSerde (fun _ => some ownedRow) (fun _ => some ownedJson)
        (buildAbility ownerOnly) .read ownedResponse ownedText
        (maskResponse ownedSerde (fun _ => some ownedRow) (fun _ => some ownedJson)
          (buildAbility ownerOnly) .read ownedResponse) :=
  ⟨by decide, mask_response_exact ownedSerde (fun _ => some ownedRow) (fun _ => some ownedJson)
    (buildAbility ownerOnly) .read ownedResponse ownedText (by decide) (by decide) rfl⟩

/-! ## The value-level masking -/

section Renders

variable {σ : Schema} {E : Entity σ}

/-- The bytes on the wire are those of the answer. -/
def Renders (serde : SerdeJson) (raw : RawResponse) (resp : Response (Payload E)) : Prop :=
  raw.status = resp.status ∧ match resp.body with
    | .empty => raw.isJson = false ∧ raw.body = .ok []
    | .text message => raw.isJson = false ∧ raw.body = .ok message.toUTF8.toList
    | .json (.rows items _) => raw.isJson = true ∧
        ∃ text, serde.toVec (.array (items.map Item.json)) = some text ∧ raw.body = .ok text
    | .json (.row item) => raw.isJson = true ∧
        ∃ text, serde.toVec item.json = some text ∧ raw.body = .ok text

/-- Printing never fails, and arrays and objects open with their bracket. -/
structure SerdeJson.Prints (serde : SerdeJson) : Prop where
  total : ∀ v, ∃ text, serde.toVec v = some text
  array : ∀ {items text}, serde.toVec (.array items) = some text → firstByte text = some 0x5B
  object : ∀ {map text}, serde.toVec (.object map) = some text → firstByte text = some 0x7B

variable {serde : SerdeJson} {surface : Surface E} {ability : Ability} {action : Action}

theorem mapM_deserialize (items : List (Item E)) :
    (items.map Item.json).mapM surface.deserialize =
      (reparse surface items).map (List.map Prod.snd) := by
  unfold reparse
  induction items with
  | nil => rfl
  | cons i items ih =>
    rw [List.map_cons, List.mapM_cons, List.mapM_cons, ih]
    cases surface.deserialize i.json with
    | none => rfl
    | some model =>
      cases items.mapM fun i => (surface.deserialize i.json).map fun model => (i.row, model) <;> rfl

/-- The masked items carry the JSON that `mask_many` gives of the models. -/
theorem map_json_mask (models : List (E.Row × E.Row)) :
    ((models.filter fun m => ability.can action m.2).map fun m =>
        (⟨m.1, ability.mask surface.serialize action m.2⟩ : Item E)).map Item.json =
      ability.maskMany surface.serialize action (models.map Prod.snd) := by
  unfold Ability.maskMany
  rw [List.filter_map, List.map_map, List.map_map]
  rfl

theorem renders_maskingFailed :
    Renders (E := E) serde maskingFailed ⟨500, .text
      "response masking failed: body did not match the authorized subject type"⟩ :=
  ⟨rfl, rfl, rfl⟩

/-- On the bytes of a generated answer, `mask_response` gives the bytes of the answer masked. -/
theorem maskResponse_renders (hprints : serde.Prints) {raw : RawResponse}
    {resp : Response (Payload E)}
    (hobject : ∀ item, resp.body = .json (.row item) → ∃ map, item.json = .object map)
    (h : Renders serde raw resp) :
    Renders serde (maskResponse serde surface.deserialize surface.serialize ability action raw)
      (Crud.maskResponse surface ability action resp) := by
  obtain ⟨status, body⟩ := resp
  obtain ⟨hstatus, hbody⟩ := h
  have hstatus : raw.status = status := hstatus
  cases hok : isSuccess raw.status with
  | false =>
    have hok' : isSuccess status = false := hstatus ▸ hok
    simp only [maskResponse, Crud.maskResponse, hok, hok']
    exact ⟨hstatus, hbody⟩
  | true =>
    have hok' : isSuccess status = true := hstatus ▸ hok
    cases body with
    | empty =>
      simp only [maskResponse, Crud.maskResponse, hok, hok', hbody.1]
      exact ⟨hstatus, hbody⟩
    | text message =>
      simp only [maskResponse, Crud.maskResponse, hok, hok', hbody.1]
      exact ⟨hstatus, hbody⟩
    | json payload =>
      cases payload with
      | rows items cursor =>
        obtain ⟨hjson, text, hprinted, htext⟩ := hbody
        rw [maskResponse_eq hok hjson htext, maskBytes_array (hprints.array hprinted)]
        have hparsed : fromSliceVec serde surface.deserialize text =
            (reparse surface items).map (List.map Prod.snd) := by
          simp only [fromSliceVec, serde.fromSlice_toVec hprinted, mapM_deserialize]
        rw [hparsed]
        simp only [Crud.maskResponse, hok']
        cases reparse surface items with
        | none => exact renders_maskingFailed
        | some models =>
          obtain ⟨out, hout⟩ := hprints.total
            (.array (ability.maskMany surface.serialize action (models.map Prod.snd)))
          rw [Option.map_some, Option.map_some, finish_of_printed hout]
          refine ⟨hstatus, hjson, out, ?_, rfl⟩
          rw [map_json_mask, hout]
      | row item =>
        obtain ⟨hjson, text, hprinted, htext⟩ := hbody
        obtain ⟨map, hmap⟩ := hobject item rfl
        have hfirst : firstByte text = some 0x7B := hprints.object (hmap ▸ hprinted)
        rw [maskResponse_eq hok hjson htext, maskBytes_object hfirst]
        simp only [fromSliceModel, serde.fromSlice_toVec hprinted, Option.bind_some,
          Crud.maskResponse, hok']
        cases surface.deserialize item.json with
        | none => exact renders_maskingFailed
        | some model =>
          obtain ⟨out, hout⟩ := hprints.total (ability.mask surface.serialize action model)
          rw [Option.map_some, finish_of_printed hout]
          exact ⟨hstatus, hjson, out, hout, rfl⟩

end Renders

end Nestrs.Crud.Shape
