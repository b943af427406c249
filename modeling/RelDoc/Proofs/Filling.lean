import RelDoc.Proofs.Outcome
import RelDoc.Proofs.Spelling

/-!
# The document that the events of a command build

A `Builder` that takes the events of the grammar gains exactly the value that they spell: `Writes` for a
value, `WritesFields` for the fields of a document and `WritesItems` for the items of an array, each in any
builder that is ready for it (`Builder.writes_of_spells`). A `Binding` in front of a writer only replaces
the places of parameters by their values (`Binding.sendAll_eq`), and refuses values that do not fit the
positions (`Binding.misfit?`), whatever writer it stands in front of. So binding a well-formed command
succeeds exactly when its positions are those of the values, and gives the document that `Command.fill`
describes (`Command.bind_eq_ok_iff`).
-/

namespace RelDoc

theorem Dict.insertAll_append {α : Type} (d as bs : Dict α) :
    insertAll d (as ++ bs) = insertAll (insertAll d as) bs := List.foldl_append ..

/-- The values of parameters by position; a position without one is written as `undefined`. -/
def valuesAt (values : List Value) (n : Nat) : Value := values.getD n .undefined

namespace Event

/-- The positions of the parameters in events, in order. -/
def positions : List Event → List Nat
  | [] => []
  | placeholder n :: rest => n :: positions rest
  | _ :: rest => positions rest

@[simp] theorem positions_nil : positions [] = [] := rfl

theorem positions_of_value? {e : Event} {v : Value} (h : e.value? = some v) (es : List Event) :
    positions (e :: es) = positions es := by
  cases e <;> cases h <;> rfl

@[simp] theorem positions_append (as bs : List Event) : positions (as ++ bs) = positions as ++ positions bs := by
  induction as with
  | nil => rfl
  | cons e rest ih => cases e <;> simp [positions, ih]

theorem positions_cons (e : Event) (es : List Event) : positions (e :: es) = positions [e] ++ positions es :=
  positions_append [e] es

@[simp] theorem positions_inDocument (es : List Event) : positions (inDocument es) = positions es := by
  simp [inDocument, positions]

@[simp] theorem positions_inArray (es : List Event) : positions (inArray es) = positions es := by
  simp [inArray, positions]

@[simp] theorem positions_field (k : String) (es : List Event) : positions (field k es) = positions es := rfl

theorem positions_flatMap {α : Type} (f : α → List Event) (as : List α) :
    positions (as.flatMap f) = as.flatMap fun a => positions (f a) := by
  induction as with
  | nil => rfl
  | cons a rest ih => simp [ih]

end Event

namespace Writer

variable {ω : Type} [Writer ω] {w w' : ω}

theorem sendAll_cons_ok {e : Event} {es : List Event} (h : send w e = (.ok (), w')) :
    sendAll w (e :: es) = sendAll w' es := by rw [sendAll, h]

theorem sendAll_cons_eq_ok {e : Event} {es : List Event} :
    sendAll w (e :: es) = (.ok (), w') ↔ ∃ w₁, send w e = (.ok (), w₁) ∧ sendAll w₁ es = (.ok (), w') := by
  rw [sendAll]
  rcases send w e with ⟨_ | ⟨⟩, w₁⟩
  · simp
  · simp

theorem sendAll_append_ok {as bs : List Event} (h : sendAll w as = (.ok (), w')) :
    sendAll w (as ++ bs) = sendAll w' bs := by rw [sendAll_append, h]

end Writer

/-! ### Builders -/

namespace Frame

/-- Does a value come next? -/
def isReady : Frame → Bool
  | document _ pending => pending.isSome
  | array _ => true

/-- The container with one more value. -/
def put (v : Value) : Frame → Frame
  | document fields (some name) => document (Dict.insert fields name v) none
  | document fields none => document fields none
  | array items => array (items ++ [v])

end Frame

namespace Builder

open Writer

theorem append_of_isReady {frame : Frame} (h : frame.isReady = true) (v : Value) (rest : List Frame)
    (root : Option Document) :
    append v ⟨frame :: rest, root⟩ = (.ok (), ⟨frame.put v :: rest, root⟩) := by
  rcases frame with ⟨fields, _ | name⟩ | items
  · simp [Frame.isReady] at h
  · rfl
  · rfl

theorem start_of_isReady {frame : Frame} (h : frame.isReady = true) (inner : Frame) (rest : List Frame)
    (root : Option Document) :
    start inner ⟨frame :: rest, root⟩ = (.ok (), ⟨inner :: frame :: rest, root⟩) := by
  rcases frame with ⟨fields, _ | name⟩ | items
  · simp [Frame.isReady] at h
  · rfl
  · rfl

/-- The events put `v` where a value comes next. -/
def Writes (es : List Event) (v : Value) : Prop :=
  ∀ frame rest root, frame.isReady = true →
    sendAll (⟨frame :: rest, root⟩ : Builder) es = (.ok (), ⟨frame.put v :: rest, root⟩)

/-- The events insert `fs` into a document. -/
def WritesFields (es : List Event) (fs : List (String × Value)) : Prop :=
  ∀ fields rest root, sendAll (⟨.document fields none :: rest, root⟩ : Builder) es =
    (.ok (), ⟨.document (Dict.insertAll fields fs) none :: rest, root⟩)

/-- The events add `vs` to an array. -/
def WritesItems (es : List Event) (vs : List Value) : Prop :=
  ∀ items rest root, sendAll (⟨.array items :: rest, root⟩ : Builder) es =
    (.ok (), ⟨.array (items ++ vs) :: rest, root⟩)

namespace WritesFields

variable {es as bs : List Event} {fs gs : List (String × Value)} {v : Value}

theorem nil : WritesFields [] [] := fun _ _ _ => rfl

theorem append (ha : WritesFields as fs) (hb : WritesFields bs gs) : WritesFields (as ++ bs) (fs ++ gs) :=
  fun fields rest root => by
    rw [sendAll_append_ok (ha fields rest root), hb, Dict.insertAll_append]

theorem field (k : String) (h : Writes es v) : WritesFields (Event.field k es) [(k, v)] :=
  fun fields rest root =>
    (sendAll_cons_ok (e := .name k) rfl).trans (h (.document fields (some k)) rest root rfl)

end WritesFields

namespace WritesItems

variable {es as bs : List Event} {vs ws : List Value} {v : Value}

theorem nil : WritesItems [] [] := fun items rest root => by simp

theorem append (ha : WritesItems as vs) (hb : WritesItems bs ws) : WritesItems (as ++ bs) (vs ++ ws) :=
  fun items rest root => by
    rw [sendAll_append_ok (ha items rest root), hb, List.append_assoc]

theorem item (h : Writes es v) : WritesItems es [v] := fun items rest root => h (.array items) rest root rfl

end WritesItems

namespace Writes

variable {es : List Event}

theorem value {e : Event} {v : Value} (he : e.value? = some v) : Writes [e] v := fun _ rest root h =>
  sendAll_cons_ok ((send_of_value? he _).trans (append_of_isReady h v rest root))

theorem placeholder (n : Nat) : Writes [.placeholder n] .undefined := fun _ rest root h =>
  sendAll_cons_ok (e := .placeholder n) (append_of_isReady h .undefined rest root)

theorem inDocument {fs : List (String × Value)} (h : WritesFields es fs) :
    Writes (Event.inDocument es) (.document (Dict.ofPairs fs)) := fun frame rest root hr => by
  rw [Event.inDocument, List.cons_append,
    sendAll_cons_ok (e := .startDocument) (start_of_isReady hr (.document [] none) rest root),
    sendAll_append_ok (h [] (frame :: rest) root)]
  exact sendAll_cons_ok (e := .endDocument) (append_of_isReady hr _ rest root)

theorem inArray {vs : List Value} (h : WritesItems es vs) :
    Writes (Event.inArray es) (.array vs) := fun frame rest root hr => by
  rw [Event.inArray, List.cons_append,
    sendAll_cons_ok (e := .startArray) (start_of_isReady hr (.array []) rest root),
    sendAll_append_ok (h [] (frame :: rest) root)]
  exact sendAll_cons_ok (e := .endArray) (append_of_isReady hr _ rest root)

end Writes

/-! ### What the grammar builds -/

mutual
theorem writes_of_spells {es : List Event} {v : Value} {j : Json} : Event.Spells es v j → Writes es v
  | .value h => .value h
  | .placeholder n => .placeholder n
  | .document h => .inDocument (writesFields_of_spells h)
  | .array h => .inArray (writesItems_of_spells h)

theorem writesFields_of_spells {es : List Event} {fs : List (String × Value)} {ms : List (String × Json)} :
    Event.SpellsFields es fs ms → WritesFields es fs
  | .nil => .nil
  | .cons k h hr => .append (.field k (writes_of_spells h)) (writesFields_of_spells hr)

theorem writesItems_of_spells {es : List Event} {vs : List Value} {js : List Json} :
    Event.SpellsItems es vs js → WritesItems es vs
  | .nil => .nil
  | .cons h hr => .append (.item (writes_of_spells h)) (writesItems_of_spells hr)
end

/-- The events of a document sent to a new builder make its root. -/
theorem sendAll_inDocument {es : List Event} {fs : List (String × Value)} {ms : List (String × Json)}
    (h : Event.SpellsFields es fs ms) :
    sendAll ({} : Builder) (Event.inDocument es) = (.ok (), ⟨[], some (Dict.ofPairs fs)⟩) := by
  have hs : send ({} : Builder) .startDocument = (.ok (), ⟨[.document [] none], none⟩) := rfl
  rw [Event.inDocument, List.cons_append, sendAll_cons_ok hs,
    sendAll_append_ok (writesFields_of_spells h [] [] none)]
  rfl

theorem sendAll_document {es : List Event} {d : Document} (h : Event.SpellsDocument es d) :
    sendAll ({} : Builder) es = (.ok (), ⟨[], some d⟩) := by
  obtain ⟨inner, rfl, hi, hn⟩ := h
  rw [sendAll_inDocument hi, Dict.ofPairs_eq_self hn]

end Builder

open Builder

/-! ### Positions of parameters -/

namespace Term

mutual
theorem positions_events : ∀ t : Term, Event.positions t.events = t.positions
  | literal v => Event.positions_of_value? (Event.value?_scalar v) []
  | placeholder _ => rfl
  | template fields => by
    rw [events, positions, Event.positions_inDocument, positions_fieldEvents fields]

theorem positions_fieldEvents : ∀ fs : List (String × Term),
    Event.positions (fieldEvents fs) = fieldPositions fs
  | [] => rfl
  | (k, t) :: rest => by
    rw [fieldEvents, fieldPositions, Event.positions_append, Event.positions_field, positions_events t,
      positions_fieldEvents rest]
end

end Term

namespace Filter

mutual
theorem positions_events : ∀ f : Filter, Event.positions f.events = f.positions
  | all => rfl
  | comparison path operator value => by
    rw [events, positions]
    simp only [Event.positions_inDocument, Event.positions_field, value.positions_events]
  | combination operator parts => by
    rw [events, positions]
    simp only [Event.positions_inDocument, Event.positions_field, Event.positions_inArray,
      positions_listEvents parts]

theorem positions_listEvents : ∀ fs : List Filter, Event.positions (listEvents fs) = listPositions fs
  | [] => rfl
  | f :: rest => by
    rw [listEvents, listPositions, Event.positions_append, positions_events f, positions_listEvents rest]
end

end Filter

namespace Stage

theorem positions_events (s : Stage) : Event.positions s.events = s.positions := by
  rw [events, Event.positions_inDocument, Event.positions_field]
  cases s with
  | filter f => exact f.positions_events
  | project fields =>
    simp [argumentEvents, positions, Event.positions, Event.positions_flatMap, Projection.events]
  | sort keys =>
    simp [argumentEvents, positions, Event.positions, Event.positions_flatMap, SortKey.events]
  | skip count => exact count.positions_events
  | limit count => exact count.positions_events

end Stage

namespace Command

theorem positions_events (c : Command) : Event.positions c.events = c.positions := by
  have hp : Event.positions c.partEvents = c.positions := by
    cases c with
    | insert _ documents =>
      simp only [partEvents, positions, Event.positions_flatMap, Term.positions_events]
    | update _ f updates =>
      simp [partEvents, positions, Event.positions, Event.positions_flatMap, f.positions_events, FieldUpdate.events,
        Term.positions_events]
    | delete _ f => simp [partEvents, positions, Event.positions, f.positions_events]
    | aggregate _ pipeline =>
      simp only [partEvents, positions, Event.positions_flatMap, Stage.positions_events]
  simpa [events, Event.positions] using hp

theorem builds (σ : Nat → Value) {c : Command} (h : c.WellFormed) :
    Writer.sendAll ({} : Builder) (c.events.map (Event.bound σ)) = (.ok (), ⟨[], some (c.fill σ)⟩) :=
  sendAll_document (c.spells σ h)

end Command

/-! ### Bindings -/

namespace Binding

variable {ω : Type} [Writer ω] {b : Binding ω} {w : ω}

/-- Marks the values at some positions as asked for. -/
def markAll (used : List Bool) (positions : List Nat) : List Bool :=
  positions.foldl (fun used n => used.set n true) used

theorem getElem?_markAll (used : List Bool) (ps : List Nat) (n : Nat) :
    (markAll used ps)[n]? = if n ∈ ps then used[n]?.map fun _ => true else used[n]? := by
  induction ps generalizing used with
  | nil => simp [markAll]
  | cons p rest ih =>
    have hp : markAll used (p :: rest) = markAll (used.set p true) rest := rfl
    rw [hp, ih, List.getElem?_set']
    by_cases h : p = n
    · subst h
      simp [Function.const_def]
    · by_cases hm : n ∈ rest <;> simp [hm, h, Ne.symm h]

theorem send_eq {e : Event} (h : Writer.send b.inner (e.bound (valuesAt b.values)) = (.ok (), w))
    (hp : ∀ n ∈ Event.positions [e], n < b.values.length) :
    Writer.send b e = (.ok (), { b with inner := w, used := markAll b.used (Event.positions [e]) }) := by
  cases e with
  | placeholder n =>
    have hn : n < b.values.length := hp n (List.mem_cons_self ..)
    have hv : valuesAt b.values n = b.values[n] := by simp [valuesAt, hn]
    rw [Event.bound, hv] at h
    show send b (.placeholder n) = _
    simp only [send, List.getElem?_eq_getElem hn, forward, h]
    rfl
  | _ =>
    show forward b _ = _
    simp only [forward]
    exact congrArg (fun x : Except Error Unit × ω => (x.1, { b with inner := x.2 })) h

/-- A binding only replaces the places of parameters by their values. -/
theorem sendAll_eq {es : List Event}
    (h : Writer.sendAll b.inner (es.map (Event.bound (valuesAt b.values))) = (.ok (), w))
    (hp : ∀ n ∈ Event.positions es, n < b.values.length) :
    Writer.sendAll b es = (.ok (), { b with inner := w, used := markAll b.used (Event.positions es) }) := by
  induction es generalizing b with
  | nil =>
    obtain rfl : b.inner = w := congrArg Prod.snd h
    rfl
  | cons e rest ih =>
    rw [List.map_cons, Writer.sendAll_cons_eq_ok] at h
    obtain ⟨w₁, h₁, h₂⟩ := h
    rw [Event.positions_cons] at hp ⊢
    have hsend := send_eq h₁ fun n hn => hp n (List.mem_append_left _ hn)
    have hrest := ih (b := { b with inner := w₁, used := markAll b.used (Event.positions [e]) }) h₂
      fun n hn => hp n (List.mem_append_right _ hn)
    rw [Writer.sendAll_cons_ok hsend, hrest]
    simp only [markAll, List.foldl_append]

theorem send_missing {n : Nat} (hn : b.values.length ≤ n) :
    Writer.send b (.placeholder n) = (.error (.missingParameter n b.values.length), b) := by
  show send b (.placeholder n) = _
  simp only [send, List.getElem?_eq_none hn]

/-- The first position without a value is an error. -/
theorem sendAll_missing {es : List Event} {n : Nat}
    (h : Writer.sendAll b.inner (es.map (Event.bound (valuesAt b.values))) = (.ok (), w))
    (hn : (Event.positions es).find? (b.values.length ≤ ·) = some n) :
    ∃ b', Writer.sendAll b es = (.error (.missingParameter n b.values.length), b') := by
  induction es generalizing b with
  | nil => simp at hn
  | cons e rest ih =>
    rw [List.map_cons, Writer.sendAll_cons_eq_ok] at h
    obtain ⟨w₁, h₁, h₂⟩ := h
    rw [Event.positions_cons, List.find?_append] at hn
    cases hf : (Event.positions [e]).find? (b.values.length ≤ ·) with
    | none =>
      rw [hf, Option.none_or] at hn
      have hp : ∀ n ∈ Event.positions [e], n < b.values.length := by
        simpa using List.find?_eq_none.1 hf
      rw [Writer.sendAll_cons_ok (send_eq h₁ hp)]
      exact ih (b := { b with inner := w₁, used := markAll b.used (Event.positions [e]) }) h₂ hn
    | some m =>
      -- the writing stops here, at the first place without a value
      rw [hf, Option.some_or] at hn
      obtain rfl := Option.some.inj hn
      cases e with
      | placeholder k =>
        obtain ⟨hk, rfl⟩ : b.values.length ≤ k ∧ k = m := by
          simpa [Event.positions, List.find?_cons_eq_some] using hf
        exact ⟨b, by rw [Writer.sendAll, send_missing hk]⟩
      | _ => simp [Event.positions] at hf

/-- What is wrong with values for these positions: the first position without a value, or else the
first value without a position. -/
def misfit? (values : List Value) (positions : List Nat) : Option Error :=
  match positions.find? (values.length ≤ ·) with
  | some n => some (.missingParameter n values.length)
  | none => ((List.range values.length).find? (· ∉ positions)).map (.unusedParameter · values.length)

theorem misfit?_eq_none {values : List Value} {ps : List Nat} :
    misfit? values ps = none ↔ ∀ n, n ∈ ps ↔ n < values.length := by
  unfold misfit?
  cases hf : ps.find? (values.length ≤ ·) with
  | some n =>
    have hle : values.length ≤ n := by simpa using List.find?_some hf
    have hm := List.mem_of_find?_eq_some hf
    simp only [reduceCtorEq, false_iff]
    exact fun h => absurd ((h n).1 hm) (Nat.not_lt.2 hle)
  | none =>
    have hlt : ∀ n ∈ ps, n < values.length := by simpa using List.find?_eq_none.1 hf
    simp only [Option.map_eq_none_iff, List.find?_eq_none, List.mem_range, decide_not, Bool.not_eq_true,
      Bool.not_eq_false', decide_eq_true_eq]
    exact ⟨fun h n => ⟨hlt n, h n⟩, fun h n hn => (h n).2 hn⟩

theorem misfit?_category {values : List Value} {ps : List Nat} {e : Error} (h : misfit? values ps = some e) :
    e.category = .parameter := by
  unfold misfit? at h
  split at h
  · obtain rfl := Option.some.inj h
    rfl
  · obtain ⟨n, -, rfl⟩ := Option.map_eq_some_iff.1 h
    rfl

theorem findIdx?_range (p : Nat → Bool) (n : Nat) : (List.range n).findIdx? p = (List.range n).find? p := by
  ext i
  rw [List.findIdx?_eq_some_iff_getElem, List.find?_range_eq_some]
  simp only [List.length_range, List.getElem_range, List.mem_range]
  constructor
  · rintro ⟨hi, hp, h⟩
    exact ⟨hp, hi, fun j hj => by simpa using h j hj⟩
  · rintro ⟨hp, hi, h⟩
    exact ⟨hi, hp, fun j hj => by simpa using h j hj⟩

theorem markAll_eq (values : List Value) (ps : List Nat) :
    markAll (values.map fun _ => false) ps = (List.range values.length).map (decide <| · ∈ ps) := by
  apply List.ext_getElem?
  intro n
  rw [getElem?_markAll]
  by_cases hm : n ∈ ps <;> by_cases hn : n < values.length <;> simp [hm, hn]

omit [Writer ω] in
/-- The first value that nothing asks for is an error. -/
theorem finish_markAll (w : ω) (values : List Value) (ps : List Nat) :
    finish ⟨w, values, markAll (values.map fun _ => false) ps⟩ =
      match (List.range values.length).find? (· ∉ ps) with
      | some n => .error (.unusedParameter n values.length)
      | none => .ok w := by
  have hf : (markAll (values.map fun _ => false) ps).findIdx? (· = false) =
      (List.range values.length).find? (· ∉ ps) := by
    rw [markAll_eq, List.findIdx?_map, findIdx?_range]
    congr 1
    funext n
    simp
  have he : finish ⟨w, values, markAll (values.map fun _ => false) ps⟩ =
      match (markAll (values.map fun _ => false) ps).findIdx? (· = false) with
      | some n => .error (.unusedParameter n values.length)
      | none => .ok w := rfl
  rw [he, hf]

section
variable {w₀ : ω} {es : List Event} {values : List Value}

theorem writeTo_eq (h : Writer.sendAll w₀ (es.map (Event.bound (valuesAt values))) = (.ok (), w))
    (hp : ∀ n ∈ Event.positions es, n < values.length) :
    Command.writeTo (ofValues w₀ values) es =
      .ok ⟨w, values, markAll (values.map fun _ => false) (Event.positions es)⟩ := by
  have hs := sendAll_eq (b := ofValues w₀ values) h hp
  rw [Command.writeTo, hs]
  rfl

/-- Whatever writer takes the events with the values in their places, a binding in front of it fails with
what is wrong with the values, or leads to the same state. -/
theorem writeTo_finish (h : Writer.sendAll w₀ (es.map (Event.bound (valuesAt values))) = (.ok (), w)) :
    (Command.writeTo (ofValues w₀ values) es >>= finish) =
      match misfit? values (Event.positions es) with
      | some e => .error e
      | none => .ok w := by
  unfold misfit?
  cases hf : (Event.positions es).find? (values.length ≤ ·) with
  | some n =>
    obtain ⟨b, hs⟩ := sendAll_missing (b := ofValues w₀ values) h hf
    rw [Command.writeTo, hs]
    rfl
  | none =>
    have hp : ∀ n ∈ Event.positions es, n < values.length := by simpa using List.find?_eq_none.1 hf
    rw [writeTo_eq h hp, Outcome.ok_bind, finish_markAll]
    cases (List.range values.length).find? (· ∉ Event.positions es) <;> rfl

end

end Binding

namespace Filter

/-- The document of a filter with the values of its parameters. Values that it does not ask for
belong to other parts of its command. -/
def bind (f : Filter) (values : List Value) : Except Error Document := do
  let w ← Command.writeTo (Binding.ofValues ({} : Builder) values) f.events
  w.inner.finish

theorem bind_eq_ok {f : Filter} (h : f.WellFormed) {values : List Value}
    (hp : ∀ n ∈ f.positions, n < values.length) : f.bind values = .ok (f.fill (valuesAt values)) := by
  rw [bind, Binding.writeTo_eq (Builder.sendAll_document (f.spells _ h)) (by rwa [f.positions_events])]
  rfl

end Filter

namespace Command

theorem bind_eq {c : Command} (h : c.WellFormed) (values : List Value) :
    c.bind values =
      match Binding.misfit? values c.positions with
      | some e => .error e
      | none => .ok (c.fill (valuesAt values)) := by
  have hb := Binding.writeTo_finish (c.builds (valuesAt values) h)
  rw [c.positions_events] at hb
  rw [bind, ← bind_assoc, hb]
  cases Binding.misfit? values c.positions <;> rfl

/-- Values that do not fit the positions of a command are refused. -/
theorem bind_eq_error {c : Command} (h : c.WellFormed) {values : List Value}
    (hp : ¬ ∀ n, n ∈ c.positions ↔ n < values.length) :
    ∃ e, c.bind values = .error e ∧ e.category = .parameter := by
  rw [bind_eq h]
  cases hm : Binding.misfit? values c.positions with
  | some e => exact ⟨e, rfl, Binding.misfit?_category hm⟩
  | none => exact absurd (Binding.misfit?_eq_none.1 hm) hp

theorem bind_eq_ok {c : Command} (h : c.WellFormed) {values : List Value}
    (hp : ∀ n, n ∈ c.positions ↔ n < values.length) : c.bind values = .ok (c.fill (valuesAt values)) := by
  rw [bind_eq h, Binding.misfit?_eq_none.2 hp]

/-- Binding succeeds exactly when the positions are those of the values, and gives the document that
the command fills in. -/
theorem bind_eq_ok_iff {c : Command} (h : c.WellFormed) {values : List Value} {doc : Document} :
    c.bind values = .ok doc ↔
      (∀ n, n ∈ c.positions ↔ n < values.length) ∧ doc = c.fill (valuesAt values) := by
  constructor
  · intro hb
    by_cases hp : ∀ n, n ∈ c.positions ↔ n < values.length
    · rw [bind_eq_ok h hp] at hb
      exact ⟨hp, (Except.ok.inj hb).symm⟩
    · obtain ⟨e, he, -⟩ := bind_eq_error h hp
      rw [hb] at he
      cases he
  · rintro ⟨hp, rfl⟩
    exact bind_eq_ok h hp

end Command
end RelDoc
