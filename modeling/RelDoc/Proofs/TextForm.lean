import RelDoc.Proofs.Construction

/-!
# The text that the events of a command write

A `JsonText` that takes the events of the grammar gains exactly the compact text of what they spell:
`Writes` for a value, `WritesMembers` for the members of an object and `WritesItems` for the items of an
array, each in any text that is ready for it (`JsonText.writes_of_spells`). Since a well-formed command
spells its document and the extended JSON of that, a command is the same as a document and as a text,
with the values of its parameters or without them (`Command.Built.text_of_document`).
-/

namespace RelDoc

namespace JsonFrame

/-- Does a value come next? -/
def isReady : JsonFrame → Bool
  | document _ isNamed => isNamed
  | array _ => true

/-- What stands in front of the next value. -/
def separator : JsonFrame → String
  | document _ _ => ""
  | array isEmpty => if isEmpty then "" else ","

/-- The container with one more value. -/
def put : JsonFrame → JsonFrame
  | document isEmpty _ => document isEmpty false
  | array _ => array false

end JsonFrame

namespace JsonText

open Writer

theorem writeValue_of_isReady {frame : JsonFrame} (h : frame.isReady = true) (text : String)
    (more rest : List JsonFrame) (output : String) :
    writeValue text more ⟨output, frame :: rest, false⟩ =
      (.ok (), ⟨output ++ (frame.separator ++ text), more ++ frame.put :: rest, false⟩) := by
  rcases frame with ⟨isEmpty, _ | _⟩ | isEmpty
  · simp [JsonFrame.isReady] at h
  · simp [writeValue, accept, push, JsonFrame.separator, JsonFrame.put]
  · rfl

/-- The events write `j` where a value comes next. Likewise `WritesMembers` in an object, and `WritesItems`
in an array. -/
def Writes (es : List Event) (j : Json) : Prop :=
  ∀ frame rest output, frame.isReady = true →
    sendAll (⟨output, frame :: rest, false⟩ : JsonText) es =
      (.ok (), ⟨output ++ (frame.separator ++ j.compact), frame.put :: rest, false⟩)

def WritesMembers (es : List Event) (ms : List (String × Json)) : Prop :=
  ∀ isEmpty rest output, sendAll (⟨output, .document isEmpty false :: rest, false⟩ : JsonText) es =
    (.ok (), ⟨output ++ Json.compactMembers isEmpty ms, .document (isEmpty && ms.isEmpty) false :: rest, false⟩)

def WritesItems (es : List Event) (js : List Json) : Prop :=
  ∀ isEmpty rest output, sendAll (⟨output, .array isEmpty :: rest, false⟩ : JsonText) es =
    (.ok (), ⟨output ++ Json.compactItems isEmpty js, .array (isEmpty && js.isEmpty) :: rest, false⟩)

namespace WritesMembers

theorem nil : WritesMembers [] [] := fun isEmpty rest output => by simp [Json.compactMembers]

theorem cons {es rest : List Event} {j : Json} {ms : List (String × Json)} (k : String) (h : Writes es j)
    (hr : WritesMembers rest ms) : WritesMembers (Event.field k es ++ rest) ((k, j) :: ms) := by
  intro isEmpty frames output
  have hname : send (⟨output, .document isEmpty false :: frames, false⟩ : JsonText) (.name k) =
      (.ok (), ⟨output ++ ((if isEmpty then "" else ",") ++ Quoted.encode k ++ ":"),
        .document false true :: frames, false⟩) := rfl
  rw [Event.field, List.cons_append, sendAll_cons_ok hname,
    sendAll_append_ok (h (.document false true) frames _ rfl), JsonFrame.put, hr]
  -- the comma came with the name, so nothing separates the value
  simp [JsonFrame.separator, Json.compactMembers, String.append_assoc]

end WritesMembers

namespace WritesItems

theorem nil : WritesItems [] [] := fun isEmpty rest output => by simp [Json.compactItems]

theorem cons {es rest : List Event} {j : Json} {js : List Json} (h : Writes es j) (hr : WritesItems rest js) :
    WritesItems (es ++ rest) (j :: js) := by
  intro isEmpty frames output
  rw [sendAll_append_ok (h (.array isEmpty) frames output rfl), JsonFrame.put, hr]
  simp [JsonFrame.separator, Json.compactItems, String.append_assoc]

end WritesItems

namespace Writes

variable {es : List Event}

theorem value {e : Event} {v : Value} (he : e.value? = some v) : Writes [e] v.extended := fun _ rest output h =>
  sendAll_cons_ok ((send_of_value? he _).trans (writeValue_of_isReady h v.extended.compact [] rest output))

theorem placeholder (n : Nat) : Writes [.placeholder n] Value.undefined.extended := fun _ rest output h => by
  rw [compact_undefined]
  exact sendAll_cons_ok (e := .placeholder n) (writeValue_of_isReady h undefinedText [] rest output)

theorem inDocument {ms : List (String × Json)} (h : WritesMembers es ms) :
    Writes (Event.inDocument es) (.object ms) := fun frame rest output hr => by
  rw [Event.inDocument, List.cons_append,
    sendAll_cons_ok (e := .startDocument) (writeValue_of_isReady hr "\x7b" [.document true false] rest output),
    List.singleton_append, sendAll_append_ok (h true (frame.put :: rest) _)]
  refine (sendAll_cons_ok (e := .endDocument) rfl).trans ?_
  simp [Json.compact, push, String.append_assoc]

theorem inArray {js : List Json} (h : WritesItems es js) : Writes (Event.inArray es) (.array js) :=
  fun frame rest output hr => by
  rw [Event.inArray, List.cons_append,
    sendAll_cons_ok (e := .startArray) (writeValue_of_isReady hr "[" [.array true] rest output),
    List.singleton_append, sendAll_append_ok (h true (frame.put :: rest) _)]
  refine (sendAll_cons_ok (e := .endArray) rfl).trans ?_
  simp [Json.compact, push, String.append_assoc]

end Writes

mutual
theorem writes_of_spells {es : List Event} {v : Value} {j : Json} : Event.Spells es v j → Writes es j
  | .value h => .value h
  | .placeholder n => .placeholder n
  | .document h => .inDocument (writesMembers_of_spells h)
  | .array h => .inArray (writesItems_of_spells h)

theorem writesMembers_of_spells {es : List Event} {fs : List (String × Value)} {ms : List (String × Json)} :
    Event.SpellsFields es fs ms → WritesMembers es ms
  | .nil => .nil
  | .cons k h hr => .cons k (writes_of_spells h) (writesMembers_of_spells hr)

theorem writesItems_of_spells {es : List Event} {vs : List Value} {js : List Json} :
    Event.SpellsItems es vs js → WritesItems es js
  | .nil => .nil
  | .cons h hr => .cons (writes_of_spells h) (writesItems_of_spells hr)
end

/-- A document sent where the root comes next goes to the end of the text and completes it. -/
theorem sendAll_root {es : List Event} {d : Document} (h : Event.SpellsDocument es d) (output : String) :
    sendAll (⟨output, [], false⟩ : JsonText) es =
      (.ok (), ⟨output ++ (Value.document d).extended.compact, [], true⟩) := by
  obtain ⟨inner, rfl, hi, -⟩ := h
  have hs : send (⟨output, [], false⟩ : JsonText) .startDocument =
      (.ok (), ⟨output ++ "\x7b", [.document true false], false⟩) := rfl
  rw [Event.inDocument, List.cons_append, sendAll_cons_ok hs,
    sendAll_append_ok (writesMembers_of_spells hi true [] _)]
  refine (sendAll_cons_ok (e := .endDocument) rfl).trans ?_
  simp [Value.extended, Json.compact, push, String.append_assoc]

/-- A document sent to a new text is all of it. -/
theorem sendAll_document {es : List Event} {d : Document} (h : Event.SpellsDocument es d) :
    sendAll ({} : JsonText) es = (.ok (), ⟨(Value.document d).extended.compact, [], true⟩) := by
  have hroot := sendAll_root h ""
  rwa [String.empty_append] at hroot

theorem sendAll_undefined (w : JsonText) (es : List Event) :
    sendAll w (es.map (Event.bound fun _ => .undefined)) = sendAll w es :=
  sendAll_map (fun w e => by cases e <;> rfl) w es

end JsonText

namespace Command

variable {c : Command}

theorem toJson_eq_ok (h : c.WellFormed) :
    c.toJson = .ok (Value.document (c.fill fun _ => .undefined)).extended.compact := by
  have hs := JsonText.sendAll_document (c.spells (fun _ => .undefined) h)
  rw [JsonText.sendAll_undefined] at hs
  rw [toJson, writeTo, hs]
  rfl

theorem bindJson_eq (h : c.WellFormed) (values : List Value) :
    c.bindJson values = (c.bind values).map fun doc => (Value.document doc).extended.compact := by
  have hb := Binding.writeTo_finish (JsonText.sendAll_document (c.spells (valuesAt values) h))
  rw [c.positions_events] at hb
  rw [bindJson, ← bind_assoc, hb, bind_eq h]
  cases Binding.misfit? values c.positions <;> rfl

/-- The text of a command is the compact extended JSON of its document. With the values of its parameters
both come about or fail with one error, and the text is again that of the document. -/
theorem Built.text_of_document (h : c.Built) :
    (∃ doc, c.toDocument = .ok doc ∧ c.toJson = .ok (Value.document doc).extended.compact) ∧
      ∀ values, c.bindJson values = (c.bind values).map fun doc => (Value.document doc).extended.compact :=
  ⟨⟨_, toDocument_eq_ok h.wellFormed, toJson_eq_ok h.wellFormed⟩, bindJson_eq h.wellFormed⟩

set_option maxRecDepth 1000 in
/-- A value that is a document of its own is written in two places; with one value too few there is
neither a document nor a text. -/
theorem Built.text_of_document_person : (Command.insert "persons" [Template.person]).Built ∧
    (Command.insert "persons" [Template.person]).toJson =
      .ok "\x7b\"insert\":\"persons\",\"documents\":[\x7b\"name\":\x7b\"$undefined\":true\x7d,\"place\":\x7b\"zip\":\x7b\"$undefined\":true\x7d,\"code\":\x7b\"$undefined\":true\x7d\x7d,\"years\":40\x7d]\x7d" ∧
    (Command.insert "persons" [Template.person]).bindJson [.null, .document [("$gt", .array [])]] =
      .ok "\x7b\"insert\":\"persons\",\"documents\":[\x7b\"name\":\x7b\"$gt\":[]\x7d,\"place\":\x7b\"zip\":null,\"code\":\x7b\"$gt\":[]\x7d\x7d,\"years\":40\x7d]\x7d" ∧
    (Command.insert "persons" [Template.person]).bindJson [.null] = .error (.missingParameter 1 1) := by
  have hb : (Command.insert "persons" [Template.person]).Built := by
    refine .insert "persons" [Template.person] (fun d hd => ?_) rfl
    obtain rfl := List.mem_singleton.1 hd
    exact Template.built_person
  obtain ⟨⟨doc, hd, hj⟩, hbind⟩ := hb.text_of_document
  obtain rfl := Except.ok.inj (hd.symm.trans (rfl : toDocument _ = .ok _))
  refine ⟨hb, ?_, ?_, ?_⟩
  · rw [hj]
    rfl
  · rw [hbind]
    rfl
  · rw [hbind]
    rfl

end Command
end RelDoc
