import RelDoc.Proofs.TextForm

/-!
# What a refused event leaves behind

Events may be sent on after a refusal, and the writer should then be as it was before it. Both writers
refuse every event without a trace, except for the end of a document: they close the innermost container
before they look whether it may end there. So an end of a document that is refused while a container is open
loses this container with all that was written into it (`Writer.Answers`). The end of an array looks first.

A `Builder` hands a closed container to the one around it, which could refuse it as well. It does not,
since all containers around the innermost one wait for a value and the outermost one is a document
(`Frame.Nested`), which refusals do not change.

As long as no end of a document is refused while a container is open, a run goes on behind a refusal as if
the refused event had not been sent (`Writer.sendAll_taken`).
-/

namespace RelDoc

/-- A state with a stack of open containers. -/
class Stacked (ω : Type) where
  /-- Is a container open? -/
  isOpen : ω → Prop
  /-- The state without its innermost open container. -/
  close : ω → ω
  close_ne : ∀ w, isOpen w → close w ≠ w

namespace Writer

variable {ω : Type} [Writer ω]

/-- The state after all events, refused ones included. -/
def afterAll (w : ω) (es : List Event) : ω := es.foldl (fun w e => (send w e).2) w

/-- Those of the events that are taken when all are sent. -/
def taken (w : ω) : List Event → List Event
  | [] => []
  | e :: rest =>
    match send w e with
    | (.ok (), w') => e :: taken w' rest
    | (.error _, w') => taken w' rest

/-- The event is refused, and the refusal changes the state. -/
def Spoils (w : ω) (e : Event) : Prop := ∃ err w', send w e = (.error err, w') ∧ w' ≠ w

theorem afterAll_cons (w : ω) (e : Event) (es : List Event) : afterAll w (e :: es) = afterAll (send w e).2 es := rfl

/-- What every event keeps, taken or refused, holds after all of them. -/
theorem afterAll_keeps (holds : ω → Prop) (hsend : ∀ w e, holds w → holds (send w e).2) {w : ω} (h : holds w)
    (es : List Event) : holds (afterAll w es) := by
  induction es generalizing w with
  | nil => exact h
  | cons e rest ih => exact ih (hsend w e h)

/-- Where no refusal changes the state, the events that are taken lead to it by themselves. -/
theorem sendAll_taken {w : ω} {es : List Event}
    (h : ∀ before e after, es = before ++ e :: after → ¬ Spoils (afterAll w before) e) :
    sendAll w (taken w es) = (.ok (), afterAll w es) := by
  induction es generalizing w with
  | nil => rfl
  | cons e rest ih =>
    have hrest : ∀ before e' after, rest = before ++ e' :: after → ¬ Spoils (afterAll (send w e).2 before) e' := by
      intro before e' after he
      exact h (e :: before) e' after (by rw [he]; rfl)
    have hfirst := h [] e rest rfl
    rw [afterAll_cons, ← ih hrest, taken]
    rcases hs : send w e with ⟨err | ⟨⟩, w'⟩
    · have hsame : w' = w := by
        by_contra hne
        exact hfirst ⟨err, w', hs, hne⟩
      rw [hsame]
    · exact sendAll_cons_ok hs

section
variable [Stacked ω] {keeps : ω → Prop} {w w' : ω} {e : Event} {err : Error}

/-- How an event is answered: it is taken, refused without a trace, or the end of a document that is refused
together with the innermost open container. What a taken event keeps is `keeps`. -/
inductive Answers (keeps : ω → Prop) (w : ω) (e : Event) : Prop where
  | takes (w' : ω) (hs : send w e = (.ok (), w')) (kept : keeps w')
  | refuses (err : Error) (hs : send w e = (.error err, w)) (hclosed : e = .endDocument → ¬ Stacked.isOpen w)
  | loses (err : Error) (hs : send w e = (.error err, Stacked.close w)) (he : e = .endDocument)
      (hopen : Stacked.isOpen w)

theorem Answers.refused (h : Answers keeps w e) (hs : send w e = (.error err, w')) :
    (w' = w ↔ ¬ (e = .endDocument ∧ Stacked.isOpen w)) ∧
      (e = .endDocument → Stacked.isOpen w → w' = Stacked.close w) := by
  cases h with
  | takes _ ht _ =>
    rw [ht] at hs
    cases (Prod.mk.inj hs).1
  | refuses err' hr hclosed =>
    obtain ⟨-, rfl⟩ := Prod.mk.inj (hr.symm.trans hs)
    exact ⟨iff_of_true rfl fun ⟨he, ho⟩ => hclosed he ho, fun he ho => absurd ho (hclosed he)⟩
  | loses err' hr he hopen =>
    obtain ⟨-, rfl⟩ := Prod.mk.inj (hr.symm.trans hs)
    exact ⟨iff_of_false (Stacked.close_ne w hopen) fun hn => hn ⟨he, hopen⟩, fun _ _ => rfl⟩

/-- The event is taken, which keeps what `keeps` says, or the state stays. -/
def TakesOrStays (keeps : ω → Prop) (w : ω) (answer : Except Error Unit × ω) : Prop :=
  (∃ w', answer = (.ok (), w') ∧ keeps w') ∨ ∃ err, answer = (.error err, w)

theorem TakesOrStays.answers (h : TakesOrStays keeps w (send w e)) (hne : e ≠ .endDocument) : Answers keeps w e := by
  rcases h with ⟨w', hs, hkept⟩ | ⟨err, hs⟩
  · exact .takes w' hs hkept
  · exact .refuses err hs fun he => absurd he hne

theorem TakesOrStays.answers_of_value? {v : Value} (he : e.value? = some v) (h : TakesOrStays keeps w (send w e)) :
    Answers keeps w e := h.answers fun hend => by rw [hend] at he; cases he

/-- A refusal that changes the state is that of the end of a document while a container is open. -/
theorem Answers.spoils (h : Answers keeps w e) (hs : Spoils w e) :
    e = .endDocument ∧ Stacked.isOpen w ∧ (send w e).1 ≠ .ok () := by
  obtain ⟨err, w', hs, hne⟩ := hs
  obtain ⟨he, hopen⟩ := not_not.1 fun hn => hne ((h.refused hs).1.2 hn)
  exact ⟨he, hopen, by rw [hs]; simp⟩

/-- What refusals do in a run of `es` from `w` and behind it. -/
structure Refusals (w : ω) (es : List Event) : Prop where
  /-- A refused event leaves the state as it was, unless it is the end of a document and a container is open. -/
  keeps_iff : ∀ e err w', send (afterAll w es) e = (.error err, w') →
    (w' = afterAll w es ↔ ¬ (e = .endDocument ∧ Stacked.isOpen (afterAll w es)))
  /-- In that case the innermost container is gone and all else stays. -/
  loses : ∀ err w', send (afterAll w es) .endDocument = (.error err, w') → Stacked.isOpen (afterAll w es) →
    w' = Stacked.close (afterAll w es)
  /-- Unless that happens, the run leads to where the events that are taken lead by themselves. -/
  goes_on : (∀ before after, es = before ++ .endDocument :: after → Stacked.isOpen (afterAll w before) →
      (send (afterAll w before) .endDocument).1 = .ok ()) →
    sendAll w (taken w es) = (.ok (), afterAll w es)

theorem Refusals.of_answers (h : ∀ before e, Answers keeps (afterAll w before) e) (es : List Event) :
    Refusals w es where
  keeps_iff e _ _ hs := ((h es e).refused hs).1
  loses _ _ hs hopen := ((h es .endDocument).refused hs).2 rfl hopen
  goes_on hends := by
    refine sendAll_taken fun before e after hes hspoils => ?_
    obtain ⟨rfl, hopen, hrefused⟩ := (h before e).spoils hspoils
    exact hrefused (hends before after hes hopen)

end
end Writer

open Writer

/-! ### Builders -/

namespace Frame

/-- Every open container waits for the one inside of it, and the outermost one is a document. -/
inductive Nested : List Frame → Prop where
  | closed : Nested []
  | root (fields : Document) (pending : Option String) : Nested [.document fields pending]
  | inner (frame : Frame) {outer : Frame} {rest : List Frame} (hready : outer.isReady = true)
      (h : Nested (outer :: rest)) : Nested (frame :: outer :: rest)

namespace Nested

variable {frame : Frame} {rest : List Frame} {fields : Document} {pending : Option String}

theorem tail (h : Nested (frame :: rest)) : Nested rest := by
  cases h with
  | root => exact .closed
  | inner _ _ h => exact h

theorem document (h : Nested (.document fields pending :: rest)) (fields' : Document) (pending' : Option String) :
    Nested (.document fields' pending' :: rest) := by
  cases h with
  | root => exact .root fields' pending'
  | inner _ hready h => exact .inner _ hready h

theorem put (h : Nested (frame :: rest)) (v : Value) : Nested (frame.put v :: rest) := by
  cases h with
  | root fields pending =>
    cases pending with
    | none => exact .root fields none
    | some name => exact .root _ none
  | inner _ hready h => exact .inner _ hready h

/-- An array stands in a container that waits for it. -/
theorem array {items : List Value} (h : Nested (.array items :: rest)) :
    ∃ outer more, rest = outer :: more ∧ outer.isReady = true := by
  cases h with
  | inner _ hready _ => exact ⟨_, _, rfl, hready⟩

end Nested
end Frame

namespace Builder

open RelDoc.Frame (Nested)

instance : Stacked Builder where
  isOpen b := b.frames ≠ []
  close b := { b with frames := b.frames.tail }
  close_ne b hopen he := by
    have hlength := congrArg (fun b' : Builder => b'.frames.length) he
    have hpos := List.length_pos_iff.2 hopen
    simp only [List.length_tail] at hlength
    omega

/-- The open containers of the builder are nested. -/
def IsNested (b : Builder) : Prop := Nested b.frames

variable {frames : List Frame} {root : Option Document}

theorem append_takesOrStays (h : Nested frames) (v : Value) :
    TakesOrStays IsNested ⟨frames, root⟩ (append v ⟨frames, root⟩) := by
  cases frames with
  | nil => exact .inr ⟨_, rfl⟩
  | cons frame rest =>
    cases hready : frame.isReady with
    | true => exact .inl ⟨_, append_of_isReady hready v rest root, h.put v⟩
    | false =>
      rcases frame with ⟨fields, _ | name⟩ | items
      · exact .inr ⟨_, rfl⟩
      · cases hready
      · cases hready

theorem start_takesOrStays (h : Nested frames) (inner : Frame)
    (hroot : frames = [] → ∃ fields, inner = .document fields none) :
    TakesOrStays IsNested ⟨frames, root⟩ (start inner ⟨frames, root⟩) := by
  cases frames with
  | nil =>
    obtain ⟨fields, rfl⟩ := hroot rfl
    cases root with
    | none => exact .inl ⟨_, rfl, .root fields none⟩
    | some d => exact .inr ⟨_, rfl⟩
  | cons frame rest =>
    cases hready : frame.isReady with
    | true => exact .inl ⟨_, start_of_isReady hready inner rest root, .inner inner hready h⟩
    | false =>
      rcases frame with ⟨fields, _ | name⟩ | items
      · exact .inr ⟨_, rfl⟩
      · cases hready
      · cases hready

theorem endDocument_answers (h : Nested frames) : Answers IsNested (⟨frames, root⟩ : Builder) .endDocument := by
  rcases frames with _ | ⟨⟨fields, _ | name⟩ | items, rest⟩
  · exact .refuses _ rfl fun _ hopen => hopen rfl
  · cases h with
    | root => exact .takes _ rfl .closed
    | inner _ hready h => exact .takes _ (append_of_isReady hready (.document fields) _ root) (h.put _)
  · exact .loses _ rfl rfl (List.cons_ne_nil _ _)
  · exact .loses _ rfl rfl (List.cons_ne_nil _ _)

/-- With nested containers, only the end of a document is refused with a trace. -/
theorem answers (h : Nested frames) (e : Event) : Answers IsNested (⟨frames, root⟩ : Builder) e := by
  cases hv : e.value? with
  | some v =>
    refine TakesOrStays.answers_of_value? hv ?_
    rw [send_of_value? hv]
    exact append_takesOrStays h v
  | none =>
    cases e with
    | startDocument => exact TakesOrStays.answers (start_takesOrStays h _ fun _ => ⟨[], rfl⟩) nofun
    | endDocument => exact endDocument_answers h
    | startArray =>
      cases frames with
      | nil => exact .refuses _ rfl nofun
      | cons frame rest => exact TakesOrStays.answers (start_takesOrStays h (.array []) nofun) nofun
    | endArray =>
      rcases frames with _ | ⟨⟨fields, pending⟩ | items, rest⟩
      · exact .refuses _ rfl nofun
      · exact .refuses _ rfl nofun
      · obtain ⟨outer, more, rfl, hready⟩ := h.array
        exact .takes _ (append_of_isReady hready (.array items) more root) (h.tail.put _)
    | name s =>
      rcases frames with _ | ⟨⟨fields, _ | previous⟩ | items, rest⟩
      · exact .refuses _ rfl nofun
      · exact .takes _ rfl (h.document fields (some s))
      · exact .refuses _ rfl nofun
      · exact .refuses _ rfl nofun
    | placeholder n => exact TakesOrStays.answers (append_takesOrStays h .undefined) nofun
    | _ => cases hv

/-- Containers stay nested, also behind a refusal. -/
theorem isNested_send {b : Builder} (h : b.IsNested) (e : Event) : (Writer.send b e).2.IsNested := by
  cases answers h e with
  | takes b' hs hn =>
    rw [hs]
    exact hn
  | refuses err hs _ =>
    rw [hs]
    exact h
  | loses err hs _ hopen =>
    rw [hs]
    obtain ⟨frames, root⟩ := b
    cases frames with
    | nil => exact absurd rfl hopen
    | cons frame rest => exact Nested.tail h

theorem isNested_afterAll {b : Builder} (h : b.IsNested) (es : List Event) : (afterAll b es).IsNested :=
  afterAll_keeps IsNested (fun _ e hb => isNested_send hb e) h es

/-- All states that events lead to, refused ones among them. -/
theorem afterAll_answers (es : List Event) (e : Event) : Answers IsNested (afterAll ({} : Builder) es) e :=
  answers (isNested_afterAll (b := {}) Nested.closed es) e

end Builder

/-! ### Texts -/

namespace JsonText

instance : Stacked JsonText where
  isOpen w := w.frames ≠ []
  close w := { w with frames := w.frames.tail }
  close_ne w hopen he := by
    have hlength := congrArg (fun w' : JsonText => w'.frames.length) he
    have hpos := List.length_pos_iff.2 hopen
    simp only [List.length_tail] at hlength
    omega

theorem writeValue_takesOrStays (text : String) (more : List JsonFrame) (w : JsonText) :
    TakesOrStays (fun _ => True) w (w.writeValue text more) := by
  obtain ⟨output, frames, finished⟩ := w
  rcases frames with _ | ⟨⟨isEmpty, _ | _⟩ | isEmpty, rest⟩
  · exact .inr ⟨_, rfl⟩
  · exact .inr ⟨_, rfl⟩
  · exact .inl ⟨_, rfl, trivial⟩
  · exact .inl ⟨_, rfl, trivial⟩

/-- In every state, only the end of a document is refused with a trace. -/
theorem answers (w : JsonText) (e : Event) : Answers (fun _ => True) w e := by
  cases hv : e.value? with
  | some v =>
    refine TakesOrStays.answers_of_value? hv ?_
    rw [send_of_value? hv]
    exact writeValue_takesOrStays v.extended.compact [] w
  | none =>
    obtain ⟨output, frames, finished⟩ := w
    cases e with
    | startDocument =>
      cases frames with
      | nil =>
        cases finished with
        | true => exact .refuses _ rfl nofun
        | false => exact .takes _ rfl trivial
      | cons frame rest =>
        exact TakesOrStays.answers (writeValue_takesOrStays "\x7b" [.document true false] ⟨output, _, _⟩) nofun
    | endDocument =>
      rcases frames with _ | ⟨⟨isEmpty, _ | _⟩ | isEmpty, rest⟩
      · exact .refuses _ rfl fun _ hopen => hopen rfl
      · exact .takes _ rfl trivial
      · exact .loses _ rfl rfl (List.cons_ne_nil _ _)
      · exact .loses _ rfl rfl (List.cons_ne_nil _ _)
    | startArray => exact TakesOrStays.answers (writeValue_takesOrStays "[" [.array true] _) nofun
    | endArray =>
      rcases frames with _ | ⟨⟨isEmpty, isNamed⟩ | isEmpty, rest⟩
      · exact .refuses _ rfl nofun
      · exact .refuses _ rfl nofun
      · exact .takes _ rfl trivial
    | name s =>
      rcases frames with _ | ⟨⟨isEmpty, _ | _⟩ | isEmpty, rest⟩
      · exact .refuses _ rfl nofun
      · exact .takes _ rfl trivial
      · exact .refuses _ rfl nofun
      · exact .refuses _ rfl nofun
    | placeholder n => exact TakesOrStays.answers (writeValue_takesOrStays undefinedText [] _) nofun
    | _ => cases hv

end JsonText

namespace Writer

/-- In every state that events lead to, refused ones among them, an event that is refused leaves a builder and a
text as they were exactly if it is not the end of a document while a container is open; that one closes the
innermost container and changes nothing else. -/
theorem refused_keeps_iff (es : List Event) : Refusals ({} : Builder) es ∧ Refusals ({} : JsonText) es :=
  ⟨.of_answers Builder.afterAll_answers es, .of_answers (fun _ e => JsonText.answers _ e) es⟩

/-- A document in a document, each with a name that has no value yet. -/
def twoNames : List Event := [.startDocument, .name "a", .startDocument, .name "b"]

/-- The end of the inner document is refused and takes it away, while the end of an array leaves all as it is. -/
theorem refused_keeps_iff_twoNames :
    (∃ b, send (afterAll ({} : Builder) twoNames) .endDocument =
        (.error (.assertion (.writer (.fieldWithoutValue (some "b")))), b) ∧
      b ≠ afterAll {} twoNames ∧ b.frames = [.document [] (some "a")]) ∧
    (∃ w, send (afterAll ({} : JsonText) twoNames) .endDocument =
        (.error (.assertion (.writer (.fieldWithoutValue none))), w) ∧
      w ≠ afterAll {} twoNames ∧ w.frames = [.document false false]) ∧
    sendAll ({} : Builder) (taken ({} : Builder) (twoNames ++ [.endArray])) =
      (.ok (), afterAll {} (twoNames ++ [.endArray])) := by
  obtain ⟨hb, hw⟩ := refused_keeps_iff twoNames
  refine ⟨⟨_, rfl, fun he => ?_, rfl⟩, ⟨_, rfl, fun he => ?_, rfl⟩, ?_⟩
  · exact (hb.keeps_iff .endDocument _ _ rfl).1 he ⟨rfl, List.cons_ne_nil _ _⟩
  · exact (hw.keeps_iff .endDocument _ _ rfl).1 he ⟨rfl, List.cons_ne_nil _ _⟩
  · refine (refused_keeps_iff (twoNames ++ [.endArray])).1.goes_on fun before after he _ => ?_
    have hm : Event.endDocument ∈ twoNames ++ [.endArray] := by
      rw [he]
      exact List.mem_append_right _ (List.mem_cons_self ..)
    simp [twoNames] at hm

/-- The refused end changes both states. Behind it, the builder finishes a document without the inner one, and the
text ends with the inner one open. -/
theorem refused_end_loses :
    Spoils (afterAll ({} : Builder) twoNames) .endDocument ∧
    Spoils (afterAll ({} : JsonText) twoNames) .endDocument ∧
    (afterAll ({} : Builder) (twoNames ++ [.endDocument, .int32 1, .endDocument])).finish =
      .ok [("a", .int32 1)] ∧
    (afterAll ({} : JsonText) (twoNames ++ [.endDocument, .endDocument])).finish =
      .ok "\x7b\"a\":\x7b\"b\":\x7d" := by
  refine ⟨⟨_, _, rfl, fun he => ?_⟩, ⟨_, _, rfl, fun he => ?_⟩, rfl, by rfl⟩
  · exact absurd (congrArg (fun b : Builder => b.frames.length) he) (by decide)
  · exact absurd (congrArg (fun w : JsonText => w.frames.length) he) (by decide)

end Writer
end RelDoc
