import Mathlib.Data.List.Induction
import RelDoc.Proofs.TextForm

/-!
# Which sequences of events writers accept

`Progress` is how far a sequence of events has come: not begun, inside a document where a name or the
end comes next, at a `Place` where a value comes next, or complete. It keeps all events so far and what
they spell, so `Progress.step` is a recogniser that knows the grammar and no writer. A writer follows it
(`Progress.Follows`) if its state is a function of the progress: it takes the events that the recogniser
takes, and refuses every other by an assertion.

A `Builder` follows it. So a builder takes all events and has a document at the end exactly if they are
those of one complete document, and then it has the document that they spell
(`Builder.finish_sendAll_iff`).
-/

namespace RelDoc

/-! ### Dictionaries by insertion -/

namespace Dict

variable {α : Type}

theorem ofPairs_concat (pairs : List (String × α)) (p : String × α) :
    ofPairs (pairs ++ [p]) = insert (ofPairs pairs) p.1 p.2 := insertAll_append [] pairs [p]

/-- Names stand where they came first. -/
theorem keys_ofPairs (pairs : List (String × α)) : keys (ofPairs pairs) = (pairs.map Prod.fst).eraseDups := by
  induction pairs using List.reverseRecOn with
  | nil => rfl
  | append_singleton pairs p ih =>
    rw [ofPairs_concat, keys_insert, ih, List.map_append, List.eraseDups_append, List.map_singleton]
    by_cases hp : p.1 ∈ pairs.map Prod.fst
    · rw [if_pos (List.mem_eraseDups.2 hp)]
      simp [List.removeAll, hp]
    · rw [if_neg (fun h => hp (List.mem_eraseDups.1 h))]
      simp [List.removeAll, hp, List.eraseDups_cons]

/-- Of the entries under one name the last counts. -/
theorem get?_ofPairs (pairs : List (String × α)) (name : String) :
    get? (ofPairs pairs) name = get? pairs.reverse name := by
  induction pairs using List.reverseRecOn with
  | nil => rfl
  | append_singleton pairs p ih =>
    rw [ofPairs_concat, get?_insert, ih, List.reverse_append]
    rfl

end Dict

/-! ### Spelled parts -/

namespace Event

/-- Events of one value, with what they spell. -/
structure Spelled where
  events : List Event
  value : Value
  json : Json
  spells : Spells events value json

/-- Events of named values. -/
structure SpelledFields where
  events : List Event
  fields : List (String × Value)
  members : List (String × Json)
  spells : SpellsFields events fields members

/-- Events of values one after another. -/
structure SpelledItems where
  events : List Event
  values : List Value
  texts : List Json
  spells : SpellsItems events values texts

namespace Spelled

def ofValue {e : Event} {v : Value} (h : e.value? = some v) : Spelled := ⟨[e], v, v.extended, .value h⟩

def ofPlaceholder (n : Nat) : Spelled := ⟨[.placeholder n], .undefined, Value.undefined.extended, .placeholder n⟩

end Spelled

namespace SpelledFields

def empty : SpelledFields := ⟨[], [], [], .nil⟩

def add (d : SpelledFields) (name : String) (v : Spelled) : SpelledFields :=
  ⟨d.events ++ field name v.events, d.fields ++ [(name, v.value)], d.members ++ [(name, v.json)],
    d.spells.append (.single name v.spells)⟩

def inDocument (d : SpelledFields) : Spelled :=
  ⟨Event.inDocument d.events, .document (Dict.ofPairs d.fields), .object d.members, .document d.spells⟩

end SpelledFields

namespace SpelledItems

def empty : SpelledItems := ⟨[], [], [], .nil⟩

def add (a : SpelledItems) (v : Spelled) : SpelledItems :=
  ⟨a.events ++ v.events, a.values ++ [v.value], a.texts ++ [v.json], a.spells.append (.single v.spells)⟩

def inArray (a : SpelledItems) : Spelled := ⟨Event.inArray a.events, .array a.values, .array a.texts, .array a.spells⟩

end SpelledItems
end Event

open Event (SpelledFields SpelledItems Spelled)

/-! ### The recogniser -/

/-- A place where a value comes next. The outermost container is a document. -/
inductive Place where
  /-- Under a name of the root document. -/
  | root (d : SpelledFields) (name : String)
  /-- Under a name of a document that is the value at another place. -/
  | field (d : SpelledFields) (name : String) (outer : Place)
  /-- At the end of an array that is the value at another place. -/
  | item (a : SpelledItems) (outer : Place)

inductive Progress where
  | fresh
  /-- In a document, which is the root or the value at a place; a name or the end comes next. -/
  | names (d : SpelledFields) (outer : Option Place)
  | awaits (p : Place)
  | complete (d : SpelledFields)

/-- The place under a name of a document. -/
def Place.under (d : SpelledFields) (name : String) : Option Place → Place
  | none => root d name
  | some outer => field d name outer

/-- The progress with the value of a place put there. -/
def Place.put : Place → Spelled → Progress
  | root d name, v => .names (d.add name v) none
  | field d name outer, v => .names (d.add name v) (some outer)
  | item a outer, v => .awaits (item (a.add v) outer)

namespace Progress

/-- Takes one event of the grammar. -/
def step : Progress → Event → Option Progress
  | fresh, .startDocument => some (names .empty none)
  | names d outer, .name s => some (awaits (.under d s outer))
  | names d none, .endDocument => some (complete d)
  | names d (some p), .endDocument => some (p.put d.inDocument)
  | awaits p, .placeholder n => some (p.put (.ofPlaceholder n))
  | awaits p, .startDocument => some (names .empty (some p))
  | awaits p, .startArray => some (awaits (.item .empty p))
  | awaits (.item a outer), .endArray => some (outer.put a.inArray)
  | awaits p, e =>
    match h : e.value? with
    | some _ => some (p.put (.ofValue h))
    | none => none
  | _, _ => none

/-- What a step can be. -/
inductive Step : Progress → Event → Progress → Prop where
  | begin : Step fresh .startDocument (names .empty none)
  | name (d : SpelledFields) (outer : Option Place) (s : String) :
    Step (names d outer) (.name s) (awaits (.under d s outer))
  | finish (d : SpelledFields) : Step (names d none) .endDocument (complete d)
  | finishInner (d : SpelledFields) (p : Place) : Step (names d (some p)) .endDocument (p.put d.inDocument)
  | value (p : Place) {e : Event} {v : Value} (h : e.value? = some v) : Step (awaits p) e (p.put (.ofValue h))
  | placeholder (p : Place) (n : Nat) : Step (awaits p) (.placeholder n) (p.put (.ofPlaceholder n))
  | beginInner (p : Place) : Step (awaits p) .startDocument (names .empty (some p))
  | beginArray (p : Place) : Step (awaits p) .startArray (awaits (.item .empty p))
  | finishArray (a : SpelledItems) (outer : Place) :
    Step (awaits (.item a outer)) .endArray (outer.put a.inArray)

theorem step_value (p : Place) {e : Event} {v : Value} (h : e.value? = some v) :
    (awaits p).step e = some (p.put (.ofValue h)) := by
  cases e <;> cases h <;> rfl

theorem step_eq_some {p q : Progress} {e : Event} : p.step e = some q ↔ Step p e q := by
  constructor
  · intro h
    unfold step at h
    split at h
    case h_9 p _ _ _ _ =>
      split at h
      · obtain rfl := Option.some.inj h
        exact .value p _
      · cases h
    case h_10 => cases h
    case h_5 p n => exact Option.some.inj h ▸ .placeholder p n
    all_goals
      obtain rfl := Option.some.inj h
      constructor
  · intro h
    cases h with
    | value p he => exact step_value p he
    | _ => rfl

/-- What a place for a value does not take. -/
theorem refused_of_awaits {p : Place} {e : Event} (h : (awaits p).step e = none) :
    e = .endDocument ∨ (∃ s, e = .name s) ∨ e = .endArray ∧ ∀ a outer, p ≠ .item a outer := by
  cases hv : e.value? with
  | some v => simp [step_value p hv] at h
  | none =>
    cases e with
    | endDocument => exact .inl rfl
    | name s => exact .inr (.inl ⟨s, rfl⟩)
    | endArray =>
      refine .inr (.inr ⟨rfl, ?_⟩)
      rintro a outer rfl
      simp [step] at h
    | startDocument | startArray | placeholder => simp [step] at h
    | _ => cases hv

def run (p : Progress) : List Event → Option Progress
  | [] => some p
  | e :: rest => (p.step e).bind fun q => run q rest

end Progress

/-- The events that led to a place. -/
def Place.events : Place → List Event
  | root d name => .startDocument :: d.events ++ [.name name]
  | field d name outer => outer.events ++ (.startDocument :: d.events ++ [.name name])
  | item a outer => outer.events ++ .startArray :: a.events

namespace Progress

/-- The events that led here. -/
def events : Progress → List Event
  | fresh => []
  | names d outer => (outer.map Place.events).getD [] ++ .startDocument :: d.events
  | awaits p => p.events
  | complete d => Event.inDocument d.events

theorem events_put (p : Place) (v : Spelled) : (p.put v).events = p.events ++ v.events := by
  cases p <;> simp [Place.put, events, Place.events, SpelledFields.add, SpelledItems.add, Event.field]

/-- A step adds its event. -/
theorem events_step {p q : Progress} {e : Event} (h : p.step e = some q) : q.events = p.events ++ [e] := by
  cases step_eq_some.1 h with
  | begin | beginInner | beginArray | finish => rfl
  | name d outer s => cases outer <;> simp [events, Place.under, Place.events]
  | value p h => exact events_put p _
  | placeholder p n => exact events_put p _
  | finishInner d p =>
    rw [events_put]
    simp [SpelledFields.inDocument, Event.inDocument, events]
  | finishArray a outer =>
    rw [events_put]
    simp [SpelledItems.inArray, Event.inArray, events, Place.events]

theorem events_run {p q : Progress} {es : List Event} (h : p.run es = some q) : q.events = p.events ++ es := by
  induction es generalizing p with
  | nil =>
    obtain rfl := Option.some.inj h
    simp
  | cons e rest ih =>
    obtain ⟨p', hs, hr⟩ := Option.bind_eq_some_iff.1 h
    rw [ih hr, events_step hs, List.append_assoc, List.singleton_append]

/-- Where the recogniser stops, it stops at an event. -/
theorem stops {p : Progress} {es : List Event} (h : p.run es = none) :
    ∃ before e after q, es = before ++ e :: after ∧ p.run before = some q ∧ q.step e = none := by
  induction es generalizing p with
  | nil => simp [run] at h
  | cons e rest ih =>
    cases hs : p.step e with
    | none => exact ⟨[], e, rest, p, rfl, rfl, hs⟩
    | some p' =>
      rw [run, hs] at h
      obtain ⟨before, e', after, q, rfl, hb, hq⟩ := ih h
      refine ⟨e :: before, e', after, q, rfl, ?_, hq⟩
      rw [run, hs]
      exact hb

/-! ### Writers behind the recogniser -/

section
variable {ω : Type} [Writer ω] {state : Progress → ω}

/-- A writer in the state of a progress takes what the recogniser takes and asserts against the rest. -/
structure Follows (state : Progress → ω) : Prop where
  takes : ∀ {p q e}, p.step e = some q → Writer.send (state p) e = (.ok (), state q)
  refuses : ∀ {p e}, p.step e = none →
    ∃ fault w, Writer.send (state p) e = (.error (.assertion (.writer fault)), w)

theorem Follows.sendAll (h : Follows state) {p q : Progress} {es : List Event} (hr : p.run es = some q) :
    Writer.sendAll (state p) es = (.ok (), state q) := by
  induction es generalizing p with
  | nil =>
    obtain rfl := Option.some.inj hr
    rfl
  | cons e rest ih =>
    obtain ⟨p', hs, hr⟩ := Option.bind_eq_some_iff.1 hr
    rw [Writer.sendAll_cons_ok (h.takes hs), ih hr]

end
end Progress

namespace Writer

variable {ω : Type} [Writer ω]

/-- The first event that the writer refuses is `e`, after it took those before it, and it asserts. -/
def RefusesAfter (w : ω) (before : List Event) (e : Event) : Prop :=
  ∃ w₁ fault w₂, sendAll w before = (.ok (), w₁) ∧ send w₁ e = (.error (.assertion (.writer fault)), w₂)

theorem RefusesAfter.sendAll {w : ω} {before : List Event} {e : Event} (h : RefusesAfter w before e)
    (after : List Event) :
    ∃ fault, (Writer.sendAll w (before ++ e :: after)).1 = .error (.assertion (.writer fault)) := by
  obtain ⟨w₁, fault, w₂, hb, hs⟩ := h
  refine ⟨fault, ?_⟩
  rw [sendAll_append_ok hb, Writer.sendAll, hs]

end Writer

theorem Progress.Follows.refusesAfter {ω : Type} [Writer ω] {state : Progress → ω} (h : Follows state)
    {p q : Progress} {before : List Event} {e : Event} (hb : p.run before = some q) (hs : q.step e = none) :
    Writer.RefusesAfter (state p) before e := by
  obtain ⟨fault, w, hw⟩ := h.refuses hs
  exact ⟨state q, fault, w, h.sendAll hb, hw⟩

/-! ### Builders -/

/-- The open containers around a place, the innermost first. -/
def Place.frames : Place → List Frame
  | root d name => [.document (Dict.ofPairs d.fields) (some name)]
  | field d name outer => .document (Dict.ofPairs d.fields) (some name) :: outer.frames
  | item a outer => .array a.values :: outer.frames

/-- The builder that the events of a progress lead to. -/
def Progress.builder : Progress → Builder
  | fresh => {}
  | names d outer => ⟨.document (Dict.ofPairs d.fields) none :: (outer.map Place.frames).getD [], none⟩
  | awaits p => ⟨p.frames, none⟩
  | complete d => ⟨[], some (Dict.ofPairs d.fields)⟩

namespace Builder

theorem append_frames (p : Place) (v : Spelled) :
    append v.value ⟨p.frames, none⟩ = (.ok (), (p.put v).builder) := by
  cases p with
  | root d name | field d name outer =>
    simp [Place.frames, append, Place.put, Progress.builder, SpelledFields.add, Dict.ofPairs_concat, Writer.accept]
  | item a outer => rfl

theorem frames_ne_nil (p : Place) : p.frames ≠ [] := by cases p <;> simp [Place.frames]

theorem start_frames (p : Place) (frame : Frame) :
    start frame ⟨p.frames, none⟩ = (.ok (), ⟨frame :: p.frames, none⟩) := by
  cases p <;> rfl

/-- A builder follows the recogniser. -/
theorem follows : Progress.Follows Progress.builder := by
  refine ⟨fun {p q e} h => ?_, fun {p e} h => ?_⟩
  · cases Progress.step_eq_some.1 h with
    | begin | finish => rfl
    | name d outer s => cases outer <;> rfl
    | value p he => exact (send_of_value? he _).trans (append_frames p (.ofValue he))
    | placeholder p n => exact append_frames p (.ofPlaceholder n)
    | beginInner p => exact start_frames p (.document [] none)
    | beginArray p => cases p <;> rfl
    | finishInner d p =>
      have ha := append_frames p d.inDocument
      cases p <;> exact ha
    | finishArray a outer => exact append_frames outer a.inArray
  · cases p with
    | fresh =>
      cases e with
      | startDocument => simp [Progress.step] at h
      | _ => exact ⟨_, _, rfl⟩
    | names d outer =>
      cases e with
      | name s => simp [Progress.step] at h
      | endDocument => cases outer <;> simp [Progress.step] at h
      | _ => exact ⟨_, _, rfl⟩
    | awaits p =>
      obtain rfl | ⟨s, rfl⟩ | ⟨rfl, hp⟩ := Progress.refused_of_awaits h
      · cases p <;> exact ⟨_, _, rfl⟩
      · cases p <;> exact ⟨_, _, rfl⟩
      · cases p with
        | item a outer => exact absurd rfl (hp a outer)
        | _ => exact ⟨_, _, rfl⟩
    | complete d => cases e <;> exact ⟨_, _, rfl⟩

theorem complete_of_finish {q : Progress} {d : Document} (h : q.builder.finish = .ok d) :
    ∃ fields, q = .complete fields ∧ d = Dict.ofPairs fields.fields := by
  cases q with
  | complete fields => exact ⟨fields, rfl, (Except.ok.inj h).symm⟩
  | fresh | names d outer => simp [Progress.builder, finish] at h
  | awaits p =>
    simp [Progress.builder, finish, frames_ne_nil p] at h

/-- A builder takes all events and has a document at the end exactly if the events are those of one complete
document: its begin, named values and its end, where a value is one event, a document or an array of values. It is
then the document that the events spell, and at any depth of it a name stands where it came first, with the value
that it came with last. -/
theorem finish_sendAll_iff (es : List Event) (d : Document) :
    (((Writer.sendAll ({} : Builder) es).1 = .ok () ∧ (Writer.sendAll ({} : Builder) es).2.finish = .ok d) ↔
      ∃ inner fs ms, es = Event.inDocument inner ∧ Event.SpellsFields inner fs ms ∧ d = Dict.ofPairs fs) ∧
    ∀ fs : List (String × Value), Dict.keys (Dict.ofPairs fs) = (fs.map Prod.fst).eraseDups ∧
      ∀ name, Dict.get? (Dict.ofPairs fs) name = Dict.get? fs.reverse name := by
  refine ⟨⟨?_, ?_⟩, fun fs => ⟨Dict.keys_ofPairs fs, Dict.get?_ofPairs fs⟩⟩
  · rintro ⟨hok, hf⟩
    cases hr : Progress.fresh.run es with
    | none =>
      obtain ⟨before, e, after, q, rfl, hb, hs⟩ := Progress.stops hr
      have hrefuses : Writer.RefusesAfter ({} : Builder) before e := follows.refusesAfter hb hs
      obtain ⟨fault, he⟩ := hrefuses.sendAll after
      rw [he] at hok
      cases hok
    | some q =>
      have hsent : Writer.sendAll ({} : Builder) es = (.ok (), q.builder) := follows.sendAll hr
      rw [hsent] at hf
      obtain ⟨fields, rfl, rfl⟩ := complete_of_finish hf
      exact ⟨fields.events, fields.fields, fields.members, (Progress.events_run hr).symm, fields.spells, rfl⟩
  · rintro ⟨inner, fs, ms, rfl, hi, rfl⟩
    rw [sendAll_inDocument hi]
    exact ⟨rfl, rfl⟩

end Builder
end RelDoc
