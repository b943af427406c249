import RelDoc.Proofs.Refusal

/-!
# Pieces of what is written

Commands and all their parts (`Command.Node`) can be written by themselves. What a node writes is a `Piece`: a
value, a document, or a value under its name. A writer waits for a value, for a name or for the root document. In
every state that waits for the piece of a node, the events of the node are taken, and the state then has just this
piece more (`Command.Node.Built.adds_one_piece`): the innermost container has it at its end, and no container is
opened, closed or changed otherwise.

There is one exception. A builder inserts into a dictionary, so a value under a name that the document has already
takes the place of the value there (`Builder.Replaces`), and what was written there is lost
(`Builder.replaces_under_known_name`). A text keeps both.
-/

namespace RelDoc

open Event (Spells SpellsFields SpellsDocument bound)

/-- What is written at once: a value, a document, or a value under its name. -/
inductive Piece where
  | value (v : Value)
  | document (d : Document)
  | pair (name : String) (v : Value)

namespace Piece

/-- The events are those of the piece. -/
def SpelledBy (es : List Event) : Piece → Prop
  | value v => Spells es v v.extended
  | document d => SpellsDocument es d
  | pair name v => SpellsFields es [(name, v)] [(name, v.extended)]

end Piece

/-! ### Nodes -/

/-- Commands and their parts. -/
inductive Command.Node where
  | value (t : Term)
  | element (name : String) (t : Term)
  | document (fields : Template)
  | filter (f : Filter)
  | stage (s : Stage)
  | update (u : FieldUpdate)
  | projection (p : Projection)
  | sortKey (k : SortKey)
  | command (c : Command)

namespace Command.Node

def events : Node → List Event
  | value t => t.events
  | element name t => Event.field name t.events
  | document fields => (Term.template fields).events
  | filter f => f.events
  | stage s => s.events
  | update u => u.events
  | projection p => p.events
  | sortKey k => k.events
  | command c => c.events

/-- The positions of the parameters in a node, in order of writing. -/
def positions : Node → List Nat
  | value t => t.positions
  | element _ t => t.positions
  | document fields => (Term.template fields).positions
  | filter f => f.positions
  | stage s => s.positions
  | update u => u.value.positions
  | projection _ => []
  | sortKey _ => []
  | command c => c.positions

/-- What a node writes when the parameters have the values that `σ` gives. -/
def piece (σ : Nat → Value) : Node → Piece
  | value t => .value (t.fill σ)
  | element name t => .pair name (t.fill σ)
  | document fields => .document (Term.fillFields σ fields)
  | filter f => .document (f.fill σ)
  | stage s => .document (s.fill σ)
  | update u => .pair u.field.text (u.value.fill σ)
  | projection p => .pair p.field.text (.boolean p.included)
  | sortKey k => .pair k.field.text (.int32 k.direction.sign)
  | command c => .document (c.fill σ)

/-- The node was put together by the checked constructors; names, projections and sort keys need no check of
their own. -/
def Built : Node → Prop
  | value t => t.Built
  | element _ t => t.Built
  | document fields => (Term.template fields).Built
  | filter f => f.Built
  | stage s => s.Built
  | update u => u.value.Built
  | projection _ => True
  | sortKey _ => True
  | command c => c.Built

theorem positions_events (n : Node) : Event.positions n.events = n.positions := by
  cases n with
  | value t => exact t.positions_events
  | element name t => exact t.positions_events
  | document fields => exact (Term.template fields).positions_events
  | filter f => exact f.positions_events
  | stage s => exact s.positions_events
  | update u => exact u.value.positions_events
  | projection p => rfl
  | sortKey k => rfl
  | command c => exact c.positions_events

/-- A node with the values of its parameters spells its piece. -/
theorem Built.spelled {n : Node} (h : n.Built) (σ : Nat → Value) : (n.piece σ).SpelledBy (n.events.map (bound σ)) := by
  cases n with
  | value t => exact t.spells σ (Term.Built.wellFormed h)
  | element name t => exact .single name (t.spells σ (Term.Built.wellFormed h))
  | document fields => exact Term.spells_template σ (Term.Built.wellFormed h)
  | filter f => exact f.spells σ (Filter.Built.wellFormed h)
  | stage s => exact s.spells σ (Stage.Built.wellFormed h)
  | update u => exact .single u.field.text (u.value.spells σ (Term.Built.wellFormed h))
  | projection p => exact .single p.field.text (.value rfl)
  | sortKey k => exact .single k.field.text (.value rfl)
  | command c => exact c.spells σ (Command.Built.wellFormed h)

end Command.Node

/-! ### States that wait for a piece -/

/-- What a state waits for, and what it is with one more piece. -/
class Collects (ω : Type) where
  /-- The state before all events. -/
  fresh : ω
  WaitsForRoot : ω → Prop
  WaitsForValue : ω → Prop
  /-- A name comes next, and the document can take this one. -/
  WaitsForName : String → ω → Prop
  /-- The state with the piece at its end. -/
  Gains : ω → Piece → ω → Prop
  /-- The state with the piece in the place of another. -/
  Replaces : ω → Piece → ω → Prop

namespace Collects

variable {ω : Type} [Collects ω]

/-- Does the piece come next? A document is a value or the root. -/
def Awaits (w : ω) : Piece → Prop
  | .value _ => WaitsForValue w
  | .document _ => WaitsForRoot w ∨ WaitsForValue w
  | .pair name _ => WaitsForName name w

/-- The second state has the piece in one of the two ways. -/
def Adds (w : ω) (p : Piece) (w' : ω) : Prop := Gains w p w' ∨ Replaces w p w'

/-- Events lead to the state, refused ones among them. -/
def Reached [Writer ω] (w : ω) : Prop := ∃ es, w = Writer.afterAll fresh es

end Collects

open Collects

/-- In every state that awaits the piece of a node, the events of the node are taken and add the piece. The writer
behind a binding may be in any of its states; the binding itself only takes note of the values asked for. -/
structure Command.Node.AddsPiece (n : Command.Node) (ω : Type) [Writer ω] [Collects ω] : Prop where
  /-- The places of parameters are written as `undefined`. -/
  plain : ∀ w : ω, Reached w → Awaits w (n.piece fun _ => .undefined) →
    ∃ w', Writer.sendAll w n.events = (.ok (), w') ∧ Adds w (n.piece fun _ => .undefined) w'
  /-- Through a binding that has a value for each of them, they are written as these values. -/
  through : ∀ b : Binding ω, Reached b.inner → (∀ k ∈ n.positions, k < b.values.length) →
    Awaits b.inner (n.piece (valuesAt b.values)) →
    ∃ w', Writer.sendAll b n.events =
        (.ok (), { b with inner := w', used := Binding.markAll b.used n.positions }) ∧
      Adds b.inner (n.piece (valuesAt b.values)) w'

/-- A writer that adds every piece from its events adds what nodes write. -/
theorem Command.Node.AddsPiece.of_spelled {n : Command.Node} (h : n.Built) {ω : Type} [Writer ω] [Collects ω]
    (hundefined : ∀ (w : ω) (es : List Event),
      Writer.sendAll w (es.map (bound fun _ => .undefined)) = Writer.sendAll w es)
    (hadds : ∀ {w : ω} {p : Piece} {es : List Event}, p.SpelledBy es → Reached w → Awaits w p →
      ∃ w', Writer.sendAll w es = (.ok (), w') ∧ Adds w p w') : n.AddsPiece ω where
  plain w hw hawaits := by
    obtain ⟨w', hs, ha⟩ := hadds (h.spelled _) hw hawaits
    rw [hundefined] at hs
    exact ⟨w', hs, ha⟩
  through b hb hp hawaits := by
    obtain ⟨w', hs, ha⟩ := hadds (h.spelled _) hb hawaits
    rw [← n.positions_events] at hp ⊢
    exact ⟨w', Binding.sendAll_eq hs hp, ha⟩

/-! ### Builders -/

/-- A known name keeps its place, and the entry there is the new one. -/
theorem Dict.exists_insert_of_mem {α : Type} {d : Dict α} {name : String} (h : name ∈ keys d) (a : α) :
    ∃ before b after, d = before ++ (name, b) :: after ∧ name ∉ keys before ∧
      insert d name a = before ++ (name, a) :: after := by
  induction d with
  | nil => exact absurd h List.not_mem_nil
  | cons p rest ih =>
    obtain ⟨k, b⟩ := p
    by_cases hk : k = name
    · subst hk
      exact ⟨[], b, rest, rfl, List.not_mem_nil, by simp [insert]⟩
    · have hrest : name ∈ keys rest := (List.mem_cons.1 h).resolve_left (Ne.symm hk)
      obtain ⟨before, b', after, rfl, hn, hi⟩ := ih hrest
      refine ⟨(k, b) :: before, b', after, rfl, ?_, ?_⟩
      · exact fun hm => (List.mem_cons.1 hm).elim (fun he => hk he.symm) hn
      · rw [insert, if_neg hk, hi, List.cons_append]

namespace Builder

/-- The second builder is the first one with the piece at the end of its innermost container, or as its root. -/
inductive Gains : Builder → Piece → Builder → Prop where
  | root (d : Document) : Gains ⟨[], none⟩ (.document d) ⟨[], some d⟩
  | named {name : String} {fields : Document} (hn : name ∉ Dict.keys fields) (v : Value) (rest : List Frame)
    (root : Option Document) :
    Gains ⟨.document fields (some name) :: rest, root⟩ (.value v)
      ⟨.document (fields ++ [(name, v)]) none :: rest, root⟩
  | item (items : List Value) (v : Value) (rest : List Frame) (root : Option Document) :
    Gains ⟨.array items :: rest, root⟩ (.value v) ⟨.array (items ++ [v]) :: rest, root⟩
  | pair (fields : Document) (name : String) (v : Value) (rest : List Frame) (root : Option Document) :
    Gains ⟨.document fields none :: rest, root⟩ (.pair name v)
      ⟨.document (fields ++ [(name, v)]) none :: rest, root⟩
  | inner {b b' : Builder} {d : Document} (h : Gains b (.value (.document d)) b') : Gains b (.document d) b'

/-- The first builder waits for the value of a name that its document has already, and the second one is the first
with this value in the place of the earlier one. -/
inductive Replaces : Builder → Piece → Builder → Prop where
  | named {name : String} {before : Document} (hn : name ∉ Dict.keys before) (old v : Value) (after : Document)
    (rest : List Frame) (root : Option Document) :
    Replaces ⟨.document (before ++ (name, old) :: after) (some name) :: rest, root⟩ (.value v)
      ⟨.document (before ++ (name, v) :: after) none :: rest, root⟩
  | inner {b b' : Builder} {d : Document} (h : Replaces b (.value (.document d)) b') : Replaces b (.document d) b'

instance : Collects Builder where
  fresh := {}
  WaitsForRoot b := b.frames = [] ∧ b.root = none
  WaitsForValue b := ∃ frame rest, b.frames = frame :: rest ∧ frame.isReady = true
  WaitsForName name b := ∃ fields rest, b.frames = .document fields none :: rest ∧ name ∉ Dict.keys fields
  Gains := Gains
  Replaces := Replaces

theorem adds_put {frame : Frame} (h : frame.isReady = true) (v : Value) (rest : List Frame) (root : Option Document) :
    Adds (⟨frame :: rest, root⟩ : Builder) (.value v) ⟨frame.put v :: rest, root⟩ := by
  rcases frame with ⟨fields, _ | name⟩ | items
  · simp [Frame.isReady] at h
  · by_cases hn : name ∈ Dict.keys fields
    · obtain ⟨before, old, after, rfl, hb, hi⟩ := Dict.exists_insert_of_mem hn v
      rw [Frame.put, hi]
      exact .inr (.named hb old v after rest root)
    · rw [Frame.put, Dict.insert_of_not_mem hn]
      exact .inl (.named hn v rest root)
  · exact .inl (.item items v rest root)

theorem adds_inner {b b' : Builder} {d : Document} (h : Adds b (.value (.document d)) b') :
    Adds b (.document d) b' := h.imp .inner .inner

theorem adds_value {b : Builder} {es : List Event} {v : Value} (hs : Spells es v v.extended)
    (h : WaitsForValue b) : ∃ b', Writer.sendAll b es = (.ok (), b') ∧ Adds b (.value v) b' := by
  obtain ⟨frames, root⟩ := b
  obtain ⟨frame, rest, rfl, hready⟩ := h
  exact ⟨_, writes_of_spells hs frame rest root hready, adds_put hready v rest root⟩

theorem adds_of_spelled {b : Builder} {p : Piece} {es : List Event} (hs : p.SpelledBy es) (h : Awaits b p) :
    ∃ b', Writer.sendAll b es = (.ok (), b') ∧ Adds b p b' := by
  cases p with
  | value v => exact adds_value hs h
  | document d =>
    rcases h with hroot | hvalue
    · obtain ⟨frames, root⟩ := b
      obtain ⟨rfl, rfl⟩ := hroot
      exact ⟨_, sendAll_document hs, .inl (.root d)⟩
    · obtain ⟨b', hb, ha⟩ := adds_value (SpellsDocument.spells hs) hvalue
      exact ⟨b', hb, adds_inner ha⟩
  | pair name v =>
    obtain ⟨frames, root⟩ := b
    obtain ⟨fields, rest, rfl, hn⟩ := h
    have hw := writesFields_of_spells hs fields rest root
    have hi : Dict.insertAll fields [(name, v)] = fields ++ [(name, v)] := Dict.insert_of_not_mem hn v
    rw [hi] at hw
    exact ⟨_, hw, .inl (.pair fields name v rest root)⟩

end Builder

/-! ### Texts -/

namespace JsonText

/-- The second text is the first one with the piece at its end, behind a comma if one is due. -/
inductive Gains : JsonText → Piece → JsonText → Prop where
  | root (output : String) (d : Document) :
    Gains ⟨output, [], false⟩ (.document d) ⟨output ++ (Value.document d).extended.compact, [], true⟩
  | named (output : String) (isEmpty : Bool) (v : Value) (rest : List JsonFrame) :
    Gains ⟨output, .document isEmpty true :: rest, false⟩ (.value v)
      ⟨output ++ v.extended.compact, .document isEmpty false :: rest, false⟩
  | item (output : String) (isEmpty : Bool) (v : Value) (rest : List JsonFrame) :
    Gains ⟨output, .array isEmpty :: rest, false⟩ (.value v)
      ⟨output ++ ((if isEmpty then "" else ",") ++ v.extended.compact), .array false :: rest, false⟩
  | pair (output : String) (isEmpty : Bool) (name : String) (v : Value) (rest : List JsonFrame) :
    Gains ⟨output, .document isEmpty false :: rest, false⟩ (.pair name v)
      ⟨output ++ ((if isEmpty then "" else ",") ++ Quoted.encode name ++ ":" ++ v.extended.compact),
        .document false false :: rest, false⟩
  | inner {w w' : JsonText} {d : Document} (h : Gains w (.value (.document d)) w') : Gains w (.document d) w'

instance : Collects JsonText where
  fresh := {}
  WaitsForRoot w := w.frames = [] ∧ w.finished = false
  WaitsForValue w := ∃ frame rest, w.frames = frame :: rest ∧ frame.isReady = true
  -- a text does not look back at its names
  WaitsForName _ w := ∃ isEmpty rest, w.frames = .document isEmpty false :: rest
  Gains := Gains
  Replaces _ _ _ := False

/-- A finished text has no open containers. -/
def IsOrderly (w : JsonText) : Prop := w.finished = true → w.frames = []

namespace IsOrderly

variable {w : JsonText}

theorem of_unfinished (h : w.finished = false) : w.IsOrderly := fun hf => absurd (h.symm.trans hf) Bool.false_ne_true

theorem unfinished (h : w.IsOrderly) (hopen : w.frames ≠ []) : w.finished = false :=
  Bool.eq_false_iff.2 fun hf => hopen (h hf)

theorem writeValue (h : w.IsOrderly) (text : String) (more : List JsonFrame) :
    (w.writeValue text more).2.IsOrderly := by
  obtain ⟨output, frames, finished⟩ := w
  rcases frames with _ | ⟨⟨isEmpty, _ | _⟩ | isEmpty, rest⟩
  · exact h
  · exact h
  · exact .of_unfinished (h.unfinished (List.cons_ne_nil _ _))
  · exact .of_unfinished (h.unfinished (List.cons_ne_nil _ _))

/-- So it is in every state, since only the end of the root document finishes a text. -/
theorem send (h : w.IsOrderly) (e : Event) : (Writer.send w e).2.IsOrderly := by
  obtain ⟨output, frames, finished⟩ := w
  rcases frames with _ | ⟨frame, rest⟩
  · cases e with
    | startDocument =>
      cases finished with
      | false => exact .of_unfinished rfl
      | true => exact h
    | _ => exact h
  · have hopen := h.unfinished (List.cons_ne_nil _ _)
    cases hv : e.value? with
    | some v =>
      rw [send_of_value? hv]
      exact h.writeValue v.extended.compact []
    | none =>
      cases e with
      | startDocument => exact h.writeValue "\x7b" [.document true false]
      | startArray => exact h.writeValue "[" [.array true]
      | placeholder n => exact h.writeValue undefinedText []
      | endDocument =>
        rcases frame with ⟨isEmpty, _ | _⟩ | isEmpty
        · exact fun hf => List.isEmpty_iff.1 hf
        · exact .of_unfinished hopen
        · exact .of_unfinished hopen
      | endArray => cases frame <;> exact .of_unfinished hopen
      | name s => rcases frame with ⟨isEmpty, _ | _⟩ | isEmpty <;> exact .of_unfinished hopen
      | _ => cases hv

theorem of_reached (h : Reached w) : w.IsOrderly := by
  obtain ⟨es, rfl⟩ := h
  exact Writer.afterAll_keeps IsOrderly (fun _ e hw => hw.send e) (of_unfinished rfl) es

end IsOrderly

theorem gains_put {frame : JsonFrame} (h : frame.isReady = true) (output : String) (v : Value)
    (rest : List JsonFrame) :
    Gains ⟨output, frame :: rest, false⟩ (.value v)
      ⟨output ++ (frame.separator ++ v.extended.compact), frame.put :: rest, false⟩ := by
  rcases frame with ⟨isEmpty, _ | _⟩ | isEmpty
  · simp [JsonFrame.isReady] at h
  · rw [JsonFrame.separator, String.empty_append]
    exact .named output isEmpty v rest
  · exact .item output isEmpty v rest

theorem gains_value {w : JsonText} {es : List Event} {v : Value} (hs : Spells es v v.extended) (hw : w.IsOrderly)
    (h : WaitsForValue w) : ∃ w', Writer.sendAll w es = (.ok (), w') ∧ Gains w (.value v) w' := by
  obtain ⟨output, frames, finished⟩ := w
  obtain ⟨frame, rest, rfl, hready⟩ := h
  obtain rfl : finished = false := hw.unfinished (List.cons_ne_nil _ _)
  exact ⟨_, writes_of_spells hs frame rest output hready, gains_put hready output v rest⟩

theorem gains_of_spelled {w : JsonText} {p : Piece} {es : List Event} (hs : p.SpelledBy es) (hw : w.IsOrderly)
    (h : Awaits w p) : ∃ w', Writer.sendAll w es = (.ok (), w') ∧ Gains w p w' := by
  cases p with
  | value v => exact gains_value hs hw h
  | document d =>
    rcases h with hroot | hvalue
    · obtain ⟨output, frames, finished⟩ := w
      obtain ⟨rfl, rfl⟩ := hroot
      exact ⟨_, sendAll_root hs output, .root output d⟩
    · obtain ⟨w', hsent, hg⟩ := gains_value (SpellsDocument.spells hs) hw hvalue
      exact ⟨w', hsent, .inner hg⟩
  | pair name v =>
    obtain ⟨output, frames, finished⟩ := w
    obtain ⟨isEmpty, rest, rfl⟩ := h
    obtain rfl : finished = false := hw.unfinished (List.cons_ne_nil _ _)
    have hsent := writesMembers_of_spells hs isEmpty rest output
    have hmembers : Json.compactMembers isEmpty [(name, v.extended)] =
        (if isEmpty then "" else ",") ++ Quoted.encode name ++ ":" ++ v.extended.compact := by
      simp [Json.compactMembers]
    rw [hmembers, List.isEmpty_cons, Bool.and_false] at hsent
    exact ⟨_, hsent, .pair output isEmpty name v rest⟩

end JsonText

/-! ### Nodes in writers -/

namespace Command.Node

open Writer (sendAll afterAll)

/-- Every node that was put together by the constructors is written as one piece: in every state of a builder or a
text, or of one of them behind a binding with values for all parameters, that awaits the piece. A text then has the
piece at its end, and so has a builder, unless it waits for the value of a name that its document has already. -/
theorem Built.adds_one_piece {n : Node} (h : n.Built) : n.AddsPiece Builder ∧ n.AddsPiece JsonText := by
  constructor
  · exact .of_spelled h Builder.sendAll_undefined fun hs _ ha => Builder.adds_of_spelled hs ha
  · refine .of_spelled h JsonText.sendAll_undefined fun hs hw ha => ?_
    obtain ⟨w', hsent, hg⟩ := JsonText.gains_of_spelled hs (.of_reached hw) ha
    exact ⟨w', hsent, .inl hg⟩

/-- An array with one item, under a name of the root document. -/
def rowsBegun : List Event := [.startDocument, .name "rows", .startArray, .int32 1]

set_option maxRecDepth 1000 in
/-- A document with another one inside becomes the second item, and the array stays open. -/
theorem Built.adds_one_piece_person : (document Template.person).Built ∧
    sendAll (afterAll ({} : Builder) rowsBegun) (document Template.person).events =
      (.ok (), ⟨[.array [.int32 1, .document [("name", .undefined),
          ("place", .document [("zip", .undefined), ("code", .undefined)]), ("years", .int32 40)]],
        .document [] (some "rows")], none⟩) ∧
    sendAll (⟨afterAll {} rowsBegun, [.null, .boolean true], [false, false]⟩ : Binding JsonText)
        (document Template.person).events =
      (.ok (), ⟨⟨"\x7b\"rows\":[1,\x7b\"name\":true,\"place\":\x7b\"zip\":null,\"code\":true\x7d,\"years\":40\x7d",
        [.array false, .document false false], false⟩, [.null, .boolean true], [true, true]⟩) := by
  obtain ⟨hbuilder, htext⟩ := adds_one_piece (n := document Template.person) Template.built_person
  have hp : ∀ k ∈ [1, 0, 1], k < 2 := by decide
  obtain ⟨b, hb, haddsBuilder⟩ := hbuilder.plain (afterAll {} rowsBegun) ⟨_, rfl⟩ (.inr ⟨_, _, rfl, rfl⟩)
  obtain ⟨w, hw, haddsText⟩ := htext.through ⟨afterAll {} rowsBegun, [.null, .boolean true], [false, false]⟩
    ⟨_, rfl⟩ hp (.inr ⟨_, _, rfl, rfl⟩)
  refine ⟨Template.built_person, hb.trans ?_, hw.trans ?_⟩
  · rcases haddsBuilder with h | h
    · cases h with
      | inner h => cases h with | item => rfl
    · cases h with
      | inner h => cases h
  · rcases haddsText with h | h
    · cases h with
      | inner h => cases h with | item => rfl
    · exact h.elim

end Command.Node

/-- A document whose only name comes again. -/
def Builder.nameAgain : List Event := [.startDocument, .name "a", .int32 1, .name "a"]

/-- The builder waits for a value and takes it, but what the document had is not there any more. -/
theorem Builder.replaces_under_known_name : ∃ b b' : Builder, b = Writer.afterAll {} nameAgain ∧
    b.frames = [.document [("a", .int32 1)] (some "a")] ∧
    (Command.Node.value (.literal (.int32 2))).Built ∧ Awaits b (.value (.int32 2)) ∧
    Writer.sendAll b (Command.Node.value (.literal (.int32 2))).events = (.ok (), b') ∧
    b'.frames = [.document [("a", .int32 2)] none] ∧ ¬ Gains b (.value (.int32 2)) b' := by
  refine ⟨_, _, rfl, rfl, .value (.int32 2) rfl, ⟨_, _, rfl, rfl⟩, rfl, rfl, fun h => ?_⟩
  cases h

end RelDoc
