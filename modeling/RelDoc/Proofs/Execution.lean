import RelDoc.Proofs.Outcome
import RelDoc.Store.Basic

/-!
# What one command does to a store

A command document that can be read asks for one of four things (`Store.Verb`), in one collection and with
the documents that come along (`Store.Asks`), and is run as that (`Store.execute_of_asks`). A store refuses
every other document and stays as it is (`Store.asks_or_refused`). So what is said of a verb's run is said of
all commands.

An insertion makes rows of its documents (`Store.StoredAs`). Updates and deletes carry specifications out one
after another; if one of them fails, then all before it took effect (`Store.applySpecs_eq_error`).
-/

namespace RelDoc

namespace Dict

variable {α : Type} {d : Dict α} {k : String} {a : α}

theorem insert_of_get?_eq_some (h : get? d k = some a) : insert d k a = d := by
  induction d with
  | nil => simp at h
  | cons p rest ih =>
    obtain ⟨name, b⟩ := p
    rw [get?_cons] at h
    rw [insert]
    split at h
    · next hk =>
      obtain rfl := Option.some.inj h
      rw [if_pos hk]
    · next hk => rw [if_neg hk, ih h]

theorem insert_insert (d : Dict α) (k : String) (a b : α) : insert (insert d k a) k b = insert d k b := by
  induction d with
  | nil => simp [insert]
  | cons p rest ih =>
    obtain ⟨name, c⟩ := p
    by_cases hk : name = k <;> simp [insert, hk, ih]

theorem insert_of_get?_eq_none (h : get? d k = none) (a : α) : insert d k a = d ++ [(k, a)] := by
  refine insert_of_not_mem (fun hk => ?_) a
  have hs := (get?_isSome d k).2 hk
  rw [h] at hs
  simp at hs

end Dict

theorem documentsOf?_map (ds : List Document) : documentsOf? (ds.map Value.document) = some ds := by
  induction ds with
  | nil => rfl
  | cons d rest ih =>
    rw [List.map_cons, documentsOf?, ih]
    rfl

theorem documentsOf?_eq_some {items : List Value} {ds : List Document} :
    documentsOf? items = some ds ↔ items = ds.map Value.document := by
  refine ⟨fun h => ?_, fun h => by rw [h, documentsOf?_map]⟩
  induction items generalizing ds with
  | nil =>
    obtain rfl := Option.some.inj h
    rfl
  | cons v rest ih =>
    rw [documentsOf?] at h
    split at h
    · next d more hv hrest =>
      obtain rfl := Option.some.inj h
      cases v with
      | document fields =>
        obtain rfl := Option.some.inj hv
        rw [ih hrest, List.map_cons]
      | _ => simp [Value.document?] at hv
    · simp at h

/-- A supply of one identifier. -/
def Store.zeros (_ : Nat) : ObjectId := ⟨List.replicate 12 0, rfl⟩

open Outcome

namespace Store

variable {fresh : Nat → ObjectId} {store : Store} {command : Document} {collection : String}

theorem documents_withDocuments (store : Store) (collection : String) (rows : List Document) (other : String) :
    (store.withDocuments collection rows).documents other =
      if collection = other then rows else store.documents other := by
  rw [documents, withDocuments, Dict.get?_insert]
  split <;> rfl

/-! ### Rows of an insertion -/

/-- A document with a primary key is stored as it is, any other with an identifier in front, which is one of
those that the supply has under the numbers `low`, …, `high - 1`. -/
def StoredAs (fresh : Nat → ObjectId) (low high : Nat) (d row : Document) : Prop :=
  (Dict.contains d idField = true ∧ row = d) ∨
    (Dict.contains d idField = false ∧ ∃ n, low ≤ n ∧ n < high ∧ row = (idField, .objectId (fresh n)) :: d)

theorem StoredAs.mono {low low' high : Nat} {d row : Document} (h : StoredAs fresh low high d row)
    (hl : low' ≤ low) : StoredAs fresh low' high d row := by
  rcases h with ⟨hc, rfl⟩ | ⟨hc, n, hn, hlt, rfl⟩
  · exact .inl ⟨hc, rfl⟩
  · exact .inr ⟨hc, n, Nat.le_trans hl hn, hlt, rfl⟩

theorem storedAs_identify (fresh : Nat → ObjectId) (issued : Nat) (given : List Document) :
    issued ≤ (identify fresh issued given).2 ∧
      List.Forall₂ (StoredAs fresh issued (identify fresh issued given).2) given
        (identify fresh issued given).1 := by
  induction given generalizing issued with
  | nil => exact ⟨Nat.le_refl _, .nil⟩
  | cons d rest ih =>
    rw [identify]
    split
    · next hc =>
      obtain ⟨hle, hrest⟩ := ih issued
      exact ⟨hle, .cons (.inl ⟨hc, rfl⟩) hrest⟩
    · next hc =>
      obtain ⟨hle, hrest⟩ := ih (issued + 1)
      -- the number issued here lies below those of the rest
      have hfirst : StoredAs fresh issued (identify fresh (issued + 1) rest).2 d
          ((idField, .objectId (fresh issued)) :: d) :=
        .inr ⟨Bool.eq_false_iff.2 hc, issued, Nat.le_refl _, hle, rfl⟩
      refine ⟨Nat.le_trans (Nat.le_succ issued) hle, .cons hfirst ?_⟩
      exact hrest.imp fun _ _ h => h.mono (Nat.le_succ issued)

/-! ### Reading a command -/

inductive Verb where
  | insert
  | update
  | delete
  | aggregate

namespace Verb

def name : Verb → String
  | insert => "insert"
  | update => "update"
  | delete => "delete"
  | aggregate => "aggregate"

/-- The name of the documents that come with the command. -/
def key : Verb → String
  | insert => "documents"
  | update => "updates"
  | delete => "deletes"
  | aggregate => "pipeline"

/-- What is done with each of the documents, if they are specifications of changes. -/
def step? : Verb → Option (Document → List Document → Except Error (Nat × List Document))
  | update => some updateOnce
  | delete => some deleteOnce
  | _ => none

theorem name_inj {v w : Verb} (h : v.name = w.name) : v = w := by
  cases v <;> cases w <;> first | rfl | exact absurd h (by decide)

theorem name_ne_key (v : Verb) : v.name ≠ v.key := by cases v <;> decide

end Verb

/-- The command is for a verb in a collection, with the given documents. -/
def Asks (command : Document) (verb : Verb) (collection : String) (given : List Document) : Prop :=
  ∃ rest, command = (verb.name, .string collection) :: rest ∧
    Dict.get? command verb.key = some (.array (given.map Value.document))

theorem asks_pair (verb : Verb) (collection : String) (given : List Document) :
    Asks [(verb.name, .string collection), (verb.key, .array (given.map Value.document))] verb collection given := by
  refine ⟨_, rfl, ?_⟩
  rw [Dict.get?_cons, if_neg verb.name_ne_key, Dict.get?_cons, if_pos rfl]

theorem commandDocuments_eq_ok {command : Document} {key : String} {ds : List Document} :
    commandDocuments command key = .ok ds ↔ Dict.get? command key = some (.array (ds.map Value.document)) := by
  constructor
  · intro h
    unfold commandDocuments at h
    split at h
    · next items hg =>
      split at h
      · next found hds =>
        obtain rfl := Except.ok.inj h
        rw [hg, documentsOf?_eq_some.1 hds]
      · simp at h
    · simp at h
  · intro h
    rw [commandDocuments, h]
    dsimp only
    rw [documentsOf?_map]

def accept (fresh : Nat → ObjectId) (store : Store) (collection : String) (given : List Document) :
    Except Error Answer × Store :=
  let (incoming, issued) := identify fresh store.issued given
  let present := store.documents collection
  match checkIds collection present incoming with
  | .error e => (.error e, { store.withDocuments collection present with issued })
  | .ok () => (.ok (.affected given.length), { store.withDocuments collection (present ++ incoming) with issued })

def change (step : Document → List Document → Except Error (Nat × List Document)) (store : Store)
    (collection : String) (specs : List Document) : Except Error Answer × Store :=
  match Dict.get? store.collections collection with
  | none => (.ok (.affected 0), store)
  | some rows =>
    ((applySpecs step 0 rows specs).1.map Answer.affected,
      store.withDocuments collection (applySpecs step 0 rows specs).2)

def Verb.run (verb : Verb) (fresh : Nat → ObjectId) (store : Store) (collection : String)
    (given : List Document) : Except Error Answer × Store :=
  match verb with
  | insert => store.accept fresh collection given
  | update => store.change updateOnce collection given
  | delete => store.change deleteOnce collection given
  | aggregate => ((Pipeline.run (store.documents collection) given).map Answer.rows, store)

theorem commandString_cons (name collection : String) (rest : Document) :
    commandString ((name, .string collection) :: rest) name = .ok collection := by
  simp [commandString, Dict.get?_cons, Value.string?]

theorem execute_cons (fresh : Nat → ObjectId) (store : Store) (name collection : String) (rest : Document) :
    store.execute fresh ((name, .string collection) :: rest) =
      if name = "insert" then store.insert fresh collection ((name, .string collection) :: rest)
      else if name = "update" then store.update collection ((name, .string collection) :: rest)
      else if name = "delete" then store.delete collection ((name, .string collection) :: rest)
      else if name = "aggregate" then (store.aggregate collection ((name, .string collection) :: rest), store)
      else (.error (.store (.unknownCommand name)), store) := by
  rw [execute, commandString_cons]

theorem execute_verb (fresh : Nat → ObjectId) (store : Store) (verb : Verb) (collection : String) (rest : Document) :
    store.execute fresh ((verb.name, .string collection) :: rest) =
      match commandDocuments ((verb.name, .string collection) :: rest) verb.key with
      | .error e => (.error e, store)
      | .ok given => verb.run fresh store collection given := by
  rw [execute_cons]
  cases verb with
  | insert =>
    rw [if_pos (show Verb.insert.name = "insert" from rfl), Store.insert, Verb.key]
    cases commandDocuments ((Verb.insert.name, .string collection) :: rest) "documents" with
    | error e => rfl
    | ok given =>
      dsimp only [Verb.run, accept]
      cases checkIds collection (store.documents collection) (identify fresh store.issued given).1 with
      | error e => rfl
      | ok u =>
        dsimp only
        rw [(storedAs_identify fresh store.issued given).2.length_eq, withDocuments, withDocuments, withDocuments,
          Dict.insert_insert]
  | update =>
    rw [if_neg (by decide), if_pos (show Verb.update.name = "update" from rfl), update, mutate, Verb.key]
    cases commandDocuments ((Verb.update.name, .string collection) :: rest) "updates" <;> rfl
  | delete =>
    rw [if_neg (by decide), if_neg (by decide), if_pos (show Verb.delete.name = "delete" from rfl), delete, mutate,
      Verb.key]
    cases commandDocuments ((Verb.delete.name, .string collection) :: rest) "deletes" <;> rfl
  | aggregate =>
    rw [if_neg (by decide), if_neg (by decide), if_neg (by decide),
      if_pos (show Verb.aggregate.name = "aggregate" from rfl), Store.aggregate, Verb.key]
    cases commandDocuments ((Verb.aggregate.name, .string collection) :: rest) "pipeline" with
    | error e => rfl
    | ok given =>
      dsimp only [Verb.run]
      rw [ok_bind]
      cases Pipeline.run (store.documents collection) given <;> rfl

theorem execute_of_asks {verb : Verb} {given : List Document} (h : Asks command verb collection given) :
    store.execute fresh command = verb.run fresh store collection given := by
  obtain ⟨rest, rfl, hg⟩ := h
  rw [execute_verb, commandDocuments_eq_ok.2 hg]

theorem commandString_head {name : String} {v : Value} {rest : Document}
    (h : commandString ((name, v) :: rest) name = .ok collection) : v = .string collection := by
  rw [commandString, Dict.get?_cons, if_pos rfl, Option.bind_some] at h
  cases v with
  | string text =>
    obtain rfl := Except.ok.inj h
    rfl
  | _ => simp [Value.string?] at h

/-- A command asks for something, or every store refuses it and stays as it is. -/
theorem asks_or_refused (command : Document) : (∃ verb collection given, Asks command verb collection given) ∨
    ∃ e, (∀ verb collection given, ¬ Asks command verb collection given) ∧
      ∀ (fresh : Nat → ObjectId) (store : Store), store.execute fresh command = (.error e, store) := by
  by_cases ha : ∃ verb collection given, Asks command verb collection given
  · exact .inl ha
  refine .inr ?_
  have hno (verb : Verb) (collection : String) (given : List Document) : ¬ Asks command verb collection given :=
    fun h => ha ⟨verb, collection, given, h⟩
  rcases command with _ | ⟨⟨name, v⟩, rest⟩
  · exact ⟨_, hno, fun _ _ => rfl⟩
  cases hc : commandString ((name, v) :: rest) name with
  | error e => exact ⟨e, hno, fun _ _ => by rw [execute, hc]⟩
  | ok collection =>
    obtain rfl := commandString_head hc
    by_cases hn : ∃ verb : Verb, name = verb.name
    · obtain ⟨verb, rfl⟩ := hn
      cases hg : commandDocuments ((verb.name, .string collection) :: rest) verb.key with
      | error e => exact ⟨e, hno, fun _ _ => by rw [execute_verb, hg]⟩
      | ok given => exact absurd ⟨rest, rfl, commandDocuments_eq_ok.1 hg⟩ (hno verb collection given)
    · -- the string under the name was read, but no verb has the name
      refine ⟨.store (.unknownCommand name), hno, fun _ _ => ?_⟩
      have hunknown (verb : Verb) : name ≠ verb.name := fun he => hn ⟨verb, he⟩
      rw [execute_cons, if_neg (show name ≠ "insert" from hunknown .insert),
        if_neg (show name ≠ "update" from hunknown .update), if_neg (show name ≠ "delete" from hunknown .delete),
        if_neg (show name ≠ "aggregate" from hunknown .aggregate)]

/-- The first name of a command tells the verb. -/
theorem Asks.name_eq {name : String} {v : Value} {rest : Document} {verb : Verb} {given : List Document}
    (h : Asks ((name, v) :: rest) verb collection given) : verb.name = name := by
  obtain ⟨more, hcommand, -⟩ := h
  obtain ⟨hhead, -⟩ := List.cons.inj hcommand
  exact (Prod.mk.inj hhead).1.symm

theorem Asks.unique {verb verb' : Verb} {collection' : String} {given given' : List Document}
    (h : Asks command verb collection given) (h' : Asks command verb' collection' given') :
    verb = verb' ∧ collection = collection' ∧ given = given' := by
  obtain ⟨rest, rfl, hg⟩ := h
  obtain ⟨rest', he, hg'⟩ := h'
  obtain ⟨hhead, -⟩ := List.cons.inj he
  obtain ⟨hname, hcollection⟩ := Prod.mk.inj hhead
  obtain rfl := Verb.name_inj hname
  rw [← commandDocuments_eq_ok] at hg hg'
  exact ⟨rfl, Value.string.inj hcollection, Except.ok.inj (hg.symm.trans hg')⟩

/-! ### Specifications -/

variable {step : Document → List Document → Except Error (Nat × List Document)} {total : Nat}
  {before rows done specs : List Document}

theorem Verb.run_of_step {verb : Verb} (h : verb.step? = some step) (fresh : Nat → ObjectId) (store : Store)
    (collection : String) (specs : List Document) :
    verb.run fresh store collection specs = store.change step collection specs := by
  cases verb with
  | update =>
    obtain rfl := Option.some.inj h
    rfl
  | delete =>
    obtain rfl := Option.some.inj h
    rfl
  | insert => simp [step?] at h
  | aggregate => simp [step?] at h

theorem applySpecs_append {n : Nat} (h : applySpecs step total before done = (.ok n, rows)) (rest : List Document) :
    applySpecs step total before (done ++ rest) = applySpecs step n rows rest := by
  induction done generalizing total before with
  | nil =>
    obtain ⟨hn, rfl⟩ := Prod.mk.inj h
    obtain rfl := Except.ok.inj hn
    rfl
  | cons spec done ih =>
    rw [applySpecs] at h
    rw [List.cons_append, applySpecs]
    split at h
    · simp at h
    · exact ih h

/-- Specifications that fail do so at one of them, on the rows that those before it left. -/
theorem applySpecs_eq_error {e : Error} (h : applySpecs step total before specs = (.error e, rows)) :
    ∃ done spec more n, specs = done ++ spec :: more ∧ applySpecs step total before done = (.ok n, rows) ∧
      step spec rows = .error e := by
  induction specs generalizing total before with
  | nil => simp [applySpecs] at h
  | cons spec more ih =>
    rw [applySpecs] at h
    split at h
    · next e' hs =>
      obtain ⟨he, rfl⟩ := Prod.mk.inj h
      obtain rfl := Except.error.inj he
      exact ⟨[], spec, more, total, rfl, rfl, hs⟩
    · next n after hs =>
      obtain ⟨done, failed, more, m, rfl, hd, hf⟩ := ih h
      refine ⟨spec :: done, failed, more, m, rfl, ?_, hf⟩
      rw [applySpecs, hs]
      exact hd

theorem change_single (spec : Document) : store.change step collection [spec] =
    match Dict.get? store.collections collection with
    | none => (.ok (.affected 0), store)
    | some rows =>
      match step spec rows with
      | .error e => (.error e, store.withDocuments collection rows)
      | .ok (n, after) => (.ok (.affected n), store.withDocuments collection after) := by
  unfold change
  cases Dict.get? store.collections collection with
  | none => rfl
  | some rows =>
    simp only [applySpecs]
    rcases step spec rows with e | ⟨n, after⟩
    · rfl
    · simp only [Nat.zero_add]
      rfl

theorem change_eq_error {e : Error} (h : (store.change step collection specs).1 = .error e) :
    ∃ before rows, Dict.get? store.collections collection = some before ∧
      applySpecs step 0 before specs = (.error e, rows) ∧
      (store.change step collection specs).2 = store.withDocuments collection rows := by
  unfold change at h ⊢
  cases hg : Dict.get? store.collections collection with
  | none => simp [hg] at h
  | some before =>
    rw [hg] at h
    refine ⟨before, (applySpecs step 0 before specs).2, rfl, Prod.ext ?_ rfl, rfl⟩
    cases ha : (applySpecs step 0 before specs).1 with
    | error e' => simpa [ha, Except.map] using h
    | ok n => simp [ha, Except.map] at h

theorem change_eq_ok {answer : Answer} {after : Store} (hg : Dict.get? store.collections collection = some rows)
    (h : store.change step collection specs = (.ok answer, after)) :
    ∃ n left, applySpecs step 0 rows specs = (.ok n, left) ∧ answer = .affected n ∧
      after = store.withDocuments collection left := by
  rw [change, hg] at h
  cases hrun : applySpecs step 0 rows specs with
  | mk outcome left =>
    simp only [hrun] at h
    obtain ⟨hanswer, rfl⟩ := Prod.mk.inj h
    cases outcome with
    | error e => simp [Except.map] at hanswer
    | ok n => exact ⟨n, left, rfl, (Except.ok.inj hanswer).symm, rfl⟩

end Store
end RelDoc
