import RelDoc.Proofs.Execution

/-!
# Collections that were never opened

A store without a collection and the store in which that collection is there and empty (`Store.Opened`) hold the
same documents, and keep holding the same after every command.

Their answers are the same too, unless the command is an update or a delete of the collection with a specification
that cannot be read (`Store.Unread`). Nothing is looked at where there is no collection, so there the command
has changed no document, while the empty collection refuses it with the error of the first such specification.
-/

namespace RelDoc

/-- The error of a step that fails. -/
def Outcome.error? {ε α : Type} : Except ε α → Option ε
  | .error e => some e
  | .ok _ => none

open Outcome

namespace Store

variable {fresh : Nat → ObjectId} {store opened : Store} {collection : String} {command : Document}
  {step : Document → List Document → Except Error (Nat × List Document)} {specs given : List Document} {e : Error}

/-- The second store is the first one with a collection that was not there, empty. -/
structure Opened (store opened : Store) (collection : String) : Prop where
  issued : opened.issued = store.issued
  absent : Dict.get? store.collections collection = none
  empty : Dict.get? opened.collections collection = some []
  elsewhere : ∀ name, name ≠ collection → Dict.get? opened.collections name = Dict.get? store.collections name

theorem Opened.documents (h : Opened store opened collection) (name : String) :
    opened.documents name = store.documents name := by
  unfold Store.documents
  by_cases hname : name = collection
  · rw [hname, h.absent, h.empty]
    rfl
  · rw [h.elsewhere name hname]

theorem opened_withDocuments (h : Dict.get? store.collections collection = none) :
    Opened store (store.withDocuments collection []) collection where
  issued := rfl
  absent := h
  empty := Dict.get?_insert_self ..
  elsewhere _ hname := Dict.get?_insert_of_ne (Ne.symm hname) ..

/-! ### Specifications on no documents -/

/-- Why a specification cannot be read. -/
def Verb.fault? : Verb → Document → Option Error
  | update, spec => error? (UpdateSpec.ofDocument spec)
  | delete, spec => error? (DeleteSpec.ofDocument spec)
  | _, _ => none

theorem Verb.step_nil {verb : Verb} (h : verb.step? = some step) (spec : Document) : step spec [] =
    match verb.fault? spec with
    | some e => .error e
    | none => .ok (0, []) := by
  cases verb with
  | update =>
    obtain rfl := Option.some.inj h
    rw [updateOnce, Verb.fault?]
    cases UpdateSpec.ofDocument spec <;> rfl
  | delete =>
    obtain rfl := Option.some.inj h
    rw [deleteOnce, Verb.fault?]
    cases DeleteSpec.ofDocument spec <;> rfl
  | insert => simp [step?] at h
  | aggregate => simp [step?] at h

/-- Where there are no documents, specifications only have to be read. -/
theorem applySpecs_nil {verb : Verb} (h : verb.step? = some step) (total : Nat) (specs : List Document) :
    applySpecs step total [] specs =
      match specs.findSome? verb.fault? with
      | some e => (.error e, [])
      | none => (.ok total, []) := by
  induction specs with
  | nil => rfl
  | cons spec rest ih =>
    rw [applySpecs, Verb.step_nil h, List.findSome?_cons]
    cases verb.fault? spec with
    | some e => rfl
    | none => exact ih

/-- Only updates and deletes have specifications to read. -/
theorem Verb.step?_of_fault {verb : Verb} (h : specs.findSome? verb.fault? = some e) : ∃ step, verb.step? = some step := by
  obtain ⟨spec, -, hspec⟩ := List.exists_of_findSome?_eq_some h
  cases verb with
  | update | delete => exact ⟨_, rfl⟩
  | insert | aggregate => simp [fault?] at hspec

/-! ### Commands on both stores -/

namespace Opened

theorem accept (h : Opened store opened collection) (fresh : Nat → ObjectId) (name : String) (given : List Document) :
    (store.accept fresh name given).1 = (opened.accept fresh name given).1 ∧
      ∀ other, (store.accept fresh name given).2.documents other = (opened.accept fresh name given).2.documents other := by
  have hleft (rows : List Document) (other : String) : (store.withDocuments name rows).documents other =
      (opened.withDocuments name rows).documents other := by
    rw [documents_withDocuments, documents_withDocuments, h.documents]
  unfold Store.accept
  rw [h.issued, h.documents]
  dsimp only
  split
  · exact ⟨rfl, hleft _⟩
  · exact ⟨rfl, hleft _⟩

theorem change_elsewhere (h : Opened store opened collection) {name : String} (hname : name ≠ collection) :
    (store.change step name specs).1 = (opened.change step name specs).1 ∧
      ∀ other, (store.change step name specs).2.documents other =
        (opened.change step name specs).2.documents other := by
  unfold Store.change
  rw [h.elsewhere name hname]
  cases Dict.get? store.collections name with
  | none => exact ⟨rfl, fun other => (h.documents other).symm⟩
  | some rows =>
    refine ⟨rfl, fun other => ?_⟩
    rw [documents_withDocuments, documents_withDocuments, h.documents]

theorem change_absent (h : Opened store opened collection) (specs : List Document) :
    store.change step collection specs = (.ok (.affected 0), store) := by
  rw [Store.change, h.absent]

theorem change_empty (h : Opened store opened collection) {verb : Verb} (hstep : verb.step? = some step)
    (specs : List Document) : opened.change step collection specs =
      match specs.findSome? verb.fault? with
      | some e => (.error e, opened)
      | none => (.ok (.affected 0), opened) := by
  have hsame : opened.withDocuments collection [] = opened := by
    rw [withDocuments, Dict.insert_of_get?_eq_some h.empty]
  rw [Store.change, h.empty]
  dsimp only
  rw [applySpecs_nil hstep]
  cases specs.findSome? verb.fault? with
  | some e => exact Prod.ext rfl hsame
  | none => exact Prod.ext rfl hsame

/-- Whatever is asked for, the same documents are left. -/
theorem documents_run (h : Opened store opened collection) (verb : Verb) (name : String) (given : List Document)
    (other : String) : (verb.run fresh store name given).2.documents other =
      (verb.run fresh opened name given).2.documents other := by
  cases hstep : verb.step? with
  | none =>
    cases verb with
    | insert => exact (h.accept fresh name given).2 other
    | aggregate => exact (h.documents other).symm
    | update | delete => simp [Verb.step?] at hstep
  | some step =>
    rw [Verb.run_of_step hstep, Verb.run_of_step hstep]
    by_cases hname : name = collection
    · rw [hname, h.change_absent, h.change_empty hstep]
      cases given.findSome? verb.fault? <;> exact (h.documents other).symm
    · exact (h.change_elsewhere hname).2 other

theorem run_eq (h : Opened store opened collection) {verb : Verb} {name : String}
    (hread : name = collection → given.findSome? verb.fault? = none) :
    (verb.run fresh store name given).1 = (verb.run fresh opened name given).1 := by
  cases hstep : verb.step? with
  | none =>
    cases verb with
    | insert => exact (h.accept fresh name given).1
    | aggregate => rw [Verb.run, Verb.run, h.documents]
    | update | delete => simp [Verb.step?] at hstep
  | some step =>
    rw [Verb.run_of_step hstep, Verb.run_of_step hstep]
    by_cases hname : name = collection
    · rw [hname, h.change_absent, h.change_empty hstep, hread hname]
    · exact (h.change_elsewhere hname).1

theorem run_of_fault (h : Opened store opened collection) {verb : Verb} (hf : given.findSome? verb.fault? = some e) :
    (verb.run fresh store collection given).1 = .ok (.affected 0) ∧
      (verb.run fresh opened collection given).1 = .error e := by
  obtain ⟨step, hstep⟩ := Verb.step?_of_fault hf
  rw [Verb.run_of_step hstep, Verb.run_of_step hstep, h.change_absent, h.change_empty hstep, hf]
  exact ⟨rfl, rfl⟩

end Opened

/-- The command is an update or a delete of the collection with a specification that cannot be read; the error is why
the first such specification cannot. -/
def Unread (command : Document) (collection : String) (e : Error) : Prop :=
  ∃ verb specs, Asks command verb collection specs ∧ specs.findSome? verb.fault? = some e

theorem execute_of_unread (h : Opened store opened collection) (fresh : Nat → ObjectId)
    (hunread : Unread command collection e) :
    (store.execute fresh command).1 = .ok (.affected 0) ∧ (opened.execute fresh command).1 = .error e := by
  obtain ⟨verb, specs, ha, hf⟩ := hunread
  rw [execute_of_asks ha, execute_of_asks ha]
  exact h.run_of_fault hf

theorem execute_of_read (h : Opened store opened collection) (hno : ∀ e, ¬ Unread command collection e) :
    (store.execute fresh command).1 = (opened.execute fresh command).1 := by
  rcases asks_or_refused command with ⟨verb, name, given, ha⟩ | ⟨e, -, he⟩
  · rw [execute_of_asks ha, execute_of_asks ha]
    refine h.run_eq fun hname => Option.eq_none_iff_forall_ne_some.2 fun e hf => ?_
    subst hname
    exact hno e ⟨verb, given, ha, hf⟩
  · rw [he, he]

/-- A collection that is not there and one that is empty hold the same documents after every command. The answers are
the same exactly if every specification for the collection can be read; if one cannot, then this is an error only
where the collection is there. -/
theorem execute_unopened (h : Opened store opened collection) (fresh : Nat → ObjectId) (command : Document) :
    (∀ name, (store.execute fresh command).2.documents name = (opened.execute fresh command).2.documents name) ∧
    ((store.execute fresh command).1 = (opened.execute fresh command).1 ↔ ∀ e, ¬ Unread command collection e) ∧
    ∀ e, Unread command collection e →
      (store.execute fresh command).1 = .ok (.affected 0) ∧ (opened.execute fresh command).1 = .error e := by
  refine ⟨fun name => ?_, ⟨fun hsame e hunread => ?_, execute_of_read h⟩, fun e => execute_of_unread h fresh⟩
  · rcases asks_or_refused command with ⟨verb, asked, given, ha⟩ | ⟨e, -, he⟩
    · rw [execute_of_asks ha, execute_of_asks ha]
      exact h.documents_run verb asked given name
    · rw [he, he]
      exact (h.documents name).symm
  · obtain ⟨hcount, herror⟩ := execute_of_unread h fresh hunread
    rw [hcount, herror] at hsame
    cases hsame

/-- A delete whose second specification has no limit. -/
def unlimited : Document :=
  [("delete", .string "shelves"), ("deletes", .array [
    .document [("q", .document []), ("limit", .int32 0)],
    .document [("q", .document [])]])]

def shelves : Store where
  collections := [("shelves", [])]

theorem execute_unopened_shelves :
    Opened {} shelves "shelves" ∧ Unread unlimited "shelves" (.store (.deleteLimit none)) ∧
    (({} : Store).execute zeros unlimited).1 = .ok (.affected 0) ∧
    (shelves.execute zeros unlimited).1 = .error (.store (.deleteLimit none)) := by
  have hopened : Opened {} shelves "shelves" := opened_withDocuments rfl
  have hunread : Unread unlimited "shelves" (.store (.deleteLimit none)) :=
    ⟨.delete, [[("q", .document []), ("limit", .int32 0)], [("q", .document [])]], ⟨_, rfl, rfl⟩, rfl⟩
  obtain ⟨-, -, hanswers⟩ := execute_unopened hopened zeros unlimited
  exact ⟨hopened, hunread, hanswers _ hunread⟩

/-- The malformed delete is answered with a count where the shelves were never opened, and refused where they are
empty. -/
theorem execute_tells_unopened :
    Dict.get? ({} : Store).collections "shelves" = none ∧ ({} : Store).withDocuments "shelves" [] = shelves ∧
    (({} : Store).execute zeros unlimited).1 = .ok (.affected 0) ∧
    (shelves.execute zeros unlimited).1 = .error (.store (.deleteLimit none)) ∧
    (({} : Store).execute zeros unlimited).1 ≠ (shelves.execute zeros unlimited).1 :=
  ⟨rfl, rfl, rfl, rfl, fun h => by cases h⟩

end Store
end RelDoc
