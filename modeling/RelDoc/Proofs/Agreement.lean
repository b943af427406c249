import RelDoc.Proofs.Reading
import RelDoc.Proofs.Recognition

/-!
# Writers that accept the same events

A `JsonText` follows the recogniser too, although it takes note of a value when the value begins, where a
builder waits for its end: in front of a place, the text is written up to the place (`Place.written`), and
the containers around the place's own already count the value that is not there yet. So a builder and a
text refuse the same event of any sequence, and a sequence that makes a document makes the text of one
JSON object, which reads as what the events spell (`Writer.builder_agrees_text`).
-/

namespace RelDoc

open Event (SpelledFields SpelledItems Spelled)

namespace Json

theorem compactMembers_append (first : Bool) (as bs : List (String × Json)) :
    compactMembers first (as ++ bs) = compactMembers first as ++ compactMembers (first && as.isEmpty) bs := by
  induction as generalizing first with
  | nil => simp [compactMembers]
  | cons m rest ih => simp [compactMembers, ih, String.append_assoc]

theorem compactItems_append (first : Bool) (as bs : List Json) :
    compactItems first (as ++ bs) = compactItems first as ++ compactItems (first && as.isEmpty) bs := by
  induction as generalizing first with
  | nil => simp [compactItems]
  | cons v rest ih => simp [compactItems, ih, String.append_assoc]

end Json

/-! ### Texts behind the recogniser -/

namespace Event

/-- A document up to where a name or its end comes next. -/
def SpelledFields.text (d : SpelledFields) : String := "\x7b" ++ Json.compactMembers true d.members

/-- A document up to the value of one more name. -/
def SpelledFields.textUpTo (d : SpelledFields) (name : String) : String :=
  d.text ++ ((if d.members.isEmpty then "" else ",") ++ Quoted.encode name ++ ":")

def SpelledItems.text (a : SpelledItems) : String := "[" ++ Json.compactItems true a.texts

@[simp] theorem SpelledFields.members_add (d : SpelledFields) (name : String) (v : Spelled) :
    (d.add name v).members = d.members ++ [(name, v.json)] := rfl

@[simp] theorem SpelledItems.texts_add (a : SpelledItems) (v : Spelled) :
    (a.add v).texts = a.texts ++ [v.json] := rfl

theorem SpelledFields.text_add (d : SpelledFields) (name : String) (v : Spelled) :
    (d.add name v).text = d.textUpTo name ++ v.json.compact := by
  simp [text, textUpTo, Json.compactMembers_append, Json.compactMembers, String.append_assoc]

theorem SpelledItems.text_add (a : SpelledItems) (v : Spelled) :
    (a.add v).text = a.text ++ ((if a.texts.isEmpty then "" else ",") ++ v.json.compact) := by
  simp [text, Json.compactItems_append, Json.compactItems, String.append_assoc]

end Event

namespace Place

/-- The container of a place, where the value comes next. -/
def top : Place → JsonFrame
  | root _ _ => .document false true
  | field _ _ _ => .document false true
  | item a _ => .array a.texts.isEmpty

/-- The containers around it. The value that each of them waits for has begun. -/
def around : Place → List JsonFrame
  | root _ _ => []
  | field _ _ outer => outer.top.put :: outer.around
  | item _ outer => outer.top.put :: outer.around

/-- The text in front of the value of a place, without the comma that an array puts there. -/
def written : Place → String
  | root d name => d.textUpTo name
  | field d name outer => outer.written ++ (outer.top.separator ++ d.textUpTo name)
  | item a outer => outer.written ++ (outer.top.separator ++ a.text)

theorem top_isReady (p : Place) : p.top.isReady = true := by cases p <;> rfl

end Place

namespace Progress

/-- The text that the events of a progress lead to. -/
def text : Progress → JsonText
  | fresh => {}
  | names d none => ⟨d.text, [.document d.members.isEmpty false], false⟩
  | names d (some p) =>
    ⟨p.written ++ (p.top.separator ++ d.text), .document d.members.isEmpty false :: p.top.put :: p.around, false⟩
  | awaits p => ⟨p.written, p.top :: p.around, false⟩
  | complete d => ⟨(Json.object d.members).compact, [], true⟩

theorem text_put (p : Place) (v : Spelled) : (p.put v).text =
    ⟨p.written ++ (p.top.separator ++ v.json.compact), p.top.put :: p.around, false⟩ := by
  cases p with
  | root d name | field d name outer =>
    simp [Place.put, text, SpelledFields.text_add, Place.written, Place.top, JsonFrame.separator,
      JsonFrame.put, Place.around, String.append_assoc]
  | item a outer =>
    simp [Place.put, text, SpelledItems.text_add, Place.written, Place.top, JsonFrame.separator,
      JsonFrame.put, Place.around, String.append_assoc]

end Progress

namespace JsonText

theorem append_behind (before separator opened more : String) :
    before ++ (separator ++ opened) ++ more = before ++ (separator ++ (opened ++ more)) := by
  simp only [String.append_assoc]

theorem writeValue_text (p : Place) (v : Spelled) :
    writeValue v.json.compact [] (Progress.awaits p).text = (.ok (), (p.put v).text) := by
  rw [Progress.text_put]
  exact writeValue_of_isReady p.top_isReady v.json.compact [] p.around p.written

/-- A text follows the recogniser. -/
theorem follows : Progress.Follows Progress.text := by
  refine ⟨fun {p q e} h => ?_, fun {p e} h => ?_⟩
  · cases Progress.step_eq_some.1 h with
    | begin => rfl
    | name d outer s =>
      cases outer with
      | none => rfl
      | some p =>
        have hs : Writer.send (Progress.names d (some p)).text (.name s) =
          (.ok (), ⟨p.written ++ (p.top.separator ++ d.text) ++ ((if d.members.isEmpty then "" else ",") ++
            Quoted.encode s ++ ":"), .document false true :: p.top.put :: p.around, false⟩) := rfl
        rw [hs, append_behind]
        rfl
    | finish d => rfl
    | finishInner d p =>
      have hs : Writer.send (Progress.names d (some p)).text .endDocument =
        (.ok (), ⟨p.written ++ (p.top.separator ++ d.text) ++ "\x7d", p.top.put :: p.around, false⟩) := rfl
      rw [hs, Progress.text_put, append_behind]
      rfl
    | value p he => exact (send_of_value? he _).trans (writeValue_text p (.ofValue he))
    | placeholder p n =>
      have hw := writeValue_text p (.ofPlaceholder n)
      rwa [Spelled.ofPlaceholder, compact_undefined] at hw
    | beginInner p => exact writeValue_of_isReady p.top_isReady "\x7b" [.document true false] p.around p.written
    | beginArray p => exact writeValue_of_isReady p.top_isReady "[" [.array true] p.around p.written
    | finishArray a p =>
      have hs : Writer.send (Progress.awaits (.item a p)).text .endArray =
        (.ok (), ⟨p.written ++ (p.top.separator ++ a.text) ++ "]", p.top.put :: p.around, false⟩) := rfl
      rw [hs, Progress.text_put, append_behind]
      rfl
  · cases p with
    | fresh =>
      cases e with
      | startDocument => simp [Progress.step] at h
      | _ => exact ⟨_, _, rfl⟩
    | names d outer =>
      cases e with
      | name s => simp [Progress.step] at h
      | endDocument => cases outer <;> simp [Progress.step] at h
      | _ => cases outer <;> exact ⟨_, _, rfl⟩
    | awaits p =>
      obtain rfl | ⟨s, rfl⟩ | ⟨rfl, hp⟩ := Progress.refused_of_awaits h
      · cases p <;> exact ⟨_, _, rfl⟩
      · cases p <;> exact ⟨_, _, rfl⟩
      · cases p with
        | item a outer => exact absurd rfl (hp a outer)
        | _ => exact ⟨_, _, rfl⟩
    | complete d => cases e <;> exact ⟨_, _, rfl⟩

theorem finish_text {q : Progress} {text : String} (h : q.text.finish = .ok text) :
    ∃ d, q = .complete d ∧ text = (Json.object d.members).compact := by
  cases q with
  | complete d => exact ⟨d, rfl, (Except.ok.inj h).symm⟩
  | names d outer => cases outer <;> cases h
  | fresh | awaits p => cases h

end JsonText

/-! ### What events spell is JSON -/

namespace Event

mutual
theorem Spells.finite {es : List Event} {v : Value} {j : Json} : Spells es v j → j.Finite
  | .value (v := v) _ => Value.finite_extended v
  | .placeholder _ => Value.finite_extended .undefined
  | .document h => SpellsFields.finite h
  | .array h => SpellsItems.finite h

theorem SpellsFields.finite {es : List Event} {fs : List (String × Value)} {ms : List (String × Json)} :
    SpellsFields es fs ms → Json.FiniteMembers ms
  | .nil => trivial
  | .cons _ h hr => ⟨Spells.finite h, SpellsFields.finite hr⟩

theorem SpellsItems.finite {es : List Event} {vs : List Value} {js : List Json} :
    SpellsItems es vs js → Json.FiniteItems js
  | .nil => trivial
  | .cons h hr => ⟨Spells.finite h, SpellsItems.finite hr⟩
end

end Event

namespace Writer

/-- A builder and a text take the same events: both take them all, or both assert against the first event that one of
them refuses. If they take all, both have a result or none has one; and the text is then the compact text of one JSON
object that has all names and values in the order of the events, every value as extended JSON, and a strict reader
reads it back. -/
theorem builder_agrees_text (es : List Event) :
    let built := sendAll ({} : Builder) es
    let written := sendAll ({} : JsonText) es
    (built.1 = .ok () ∧ written.1 = .ok () ∧
      ((∃ d, built.2.finish = .ok d) ↔ ∃ text, written.2.finish = .ok text) ∧
      ∀ text, written.2.finish = .ok text →
        ∃ inner fs ms, es = Event.inDocument inner ∧ Event.SpellsFields inner fs ms ∧
          text = (Json.object ms).compact ∧ JsonTree.ofString? text = some (Json.object ms).tree) ∨
    ∃ before e after, es = before ++ e :: after ∧ RefusesAfter ({} : Builder) before e ∧
      RefusesAfter ({} : JsonText) before e := by
  intro built written
  cases hr : Progress.fresh.run es with
  | none =>
    obtain ⟨before, e, after, q, rfl, hb, hs⟩ := Progress.stops hr
    exact .inr ⟨before, e, after, rfl, Builder.follows.refusesAfter hb hs, JsonText.follows.refusesAfter hb hs⟩
  | some q =>
    have hbuilt : built = (.ok (), q.builder) := Builder.follows.sendAll hr
    have hwritten : written = (.ok (), q.text) := JsonText.follows.sendAll hr
    rw [hbuilt, hwritten]
    refine .inl ⟨rfl, rfl, ⟨?_, ?_⟩, fun text ht => ?_⟩
    · rintro ⟨d, hd⟩
      obtain ⟨d, rfl, -⟩ := Builder.complete_of_finish hd
      exact ⟨_, rfl⟩
    · rintro ⟨text, ht⟩
      obtain ⟨d, rfl, -⟩ := JsonText.finish_text ht
      exact ⟨_, rfl⟩
    · obtain ⟨d, rfl, rfl⟩ := JsonText.finish_text ht
      have hread := JsonTree.ofString?_compact (j := .object d.members) (Event.SpellsFields.finite d.spells)
      exact ⟨d.events, d.fields, d.members, (Progress.events_run hr).symm, d.spells, rfl, hread⟩

end Writer
end RelDoc
