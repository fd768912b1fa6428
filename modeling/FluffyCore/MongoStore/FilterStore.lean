import FluffyCore.Library.ChangeLog
import FluffyCore.Library.MapLoop

/-!
# The filter collection

The collection holds one document per filter, keyed by the filter's name. It is
modelled by the log of its writes. A change stream reports one event per logged
write: an insert carries the document written, an update the document found when
the event is read, a delete only the key.
-/

namespace FluffyCore.MongoStore

open Library.MapLoop Library.ChangeLog

/-- A stored filter. Times are in milliseconds, the precision they are stored
with; a filter without `deletedAt` is active. -/
structure FilterDocument where
  name : String
  hint : String
  metadata : FiniteMap String String
  expr : String
  createdAt : Int
  updatedAt : Int
  deletedAt : Option Int
deriving DecidableEq

abbrev Log : Type := List (Entry String FilterDocument)

/-- The document `Upsert` leaves: a new one is created now, an old one keeps its
creation time and is active again. -/
def upserted (now : Int) (doc : FilterDocument) : Option FilterDocument → FilterDocument
  | some old =>
      { old with
        hint := doc.hint, metadata := doc.metadata, expr := doc.expr, updatedAt := now,
        deletedAt := none }
  | none => { doc with createdAt := now, updatedAt := now, deletedAt := none }

/-- `Upsert`. An update that changes no field is not logged. -/
def upsert (now : Int) (doc : FilterDocument) (log : Log) : Log :=
  let stored := upserted now doc (contents log doc.name)
  if contents log doc.name = some stored then log else log ++ [.put doc.name (some stored)]

/-- `SoftDelete`: the filter is matched only while it is active. -/
def softDelete (now : Int) (name : String) (log : Log) : Log :=
  match contents log name with
  | some old =>
      if old.deletedAt = none then
        log ++ [.put name (some { old with deletedAt := some now, updatedAt := now })]
      else log
  | none => log

/-- `HardDelete`: nothing is logged for a name that is not there. -/
def hardDelete (name : String) (log : Log) : Log :=
  match contents log name with
  | some _ => log ++ [.put name none]
  | none => log

/-- A write to the collection. -/
inductive StoreWrite where
  | upsert (now : Int) (doc : FilterDocument)
  | softDelete (now : Int) (name : String)
  | hardDelete (name : String)
  | dropCollection

/-- The name a write is about; dropping the collection names none. -/
def StoreWrite.name : StoreWrite → Option String
  | .upsert _ doc => some doc.name
  | .softDelete _ name => some name
  | .hardDelete name => some name
  | .dropCollection => none

def StoreWrite.apply (log : Log) : StoreWrite → Log
  | .upsert now doc => MongoStore.upsert now doc log
  | .softDelete now name => MongoStore.softDelete now name log
  | .hardDelete name => MongoStore.hardDelete name log
  | .dropCollection => log ++ [.drop]

/-- The documents a reader treats as present: those not soft-deleted. -/
def active (log : Log) (name : String) : Option FilterDocument :=
  (contents log name).filter fun doc => doc.deletedAt = none

/-- What `ListActive` may return when it starts after some prefix of the log and
ends now. It returns the documents by name; each name was read at some moment in
between, not necessarily all at the same one. -/
structure Listing (log : Log) (start : Nat) (docs : List FilterDocument) : Prop where
  sorted : docs.Pairwise fun first second => first.name < second.name
  read : ∀ name, ∃ moment, start ≤ moment ∧ moment ≤ log.length ∧
    ∀ doc, (doc ∈ docs ∧ doc.name = name) ↔ active (log.take moment) name = some doc

inductive OperationType where
  | insert | update | replace | delete | other
deriving DecidableEq

/-- A change stream document, as far as the decoder reads it. -/
structure ChangeEvent where
  operationType : OperationType
  fullDocument : Option FilterDocument
  documentKey : String

/-- The event of the write at a position, read when the log has some length. The
stream has no event for a drop; it is invalidated there. -/
def changeEvent (log : Log) (position moment : Nat) : Option ChangeEvent :=
  match log[position]? with
  | some (.put key (some doc)) =>
      if (contents (log.take position) key).isNone then
        some ⟨.insert, some doc, key⟩
      else some ⟨.update, contents (log.take moment) key, key⟩
  | some (.put key none) => some ⟨.delete, none, key⟩
  | some .drop => none
  | none => none

/-- Every stored document is stored under its own, non-empty name. -/
def Keyed (log : Log) : Prop :=
  ∀ key document, .put key document ∈ log → key ≠ "" ∧ ∀ doc, document = some doc → doc.name = key

/-- A document read back carries the name it is stored under. -/
theorem Keyed.name_eq {log : Log} (keyed : Keyed log) (name : String) (doc : FilterDocument)
    (stored : contents log name = some doc) : doc.name = name := by
  induction log using List.reverseRecOn with
  | nil => cases stored
  | append_singleton earlier last inductionHypothesis =>
    rw [contents_append_singleton] at stored
    cases last with
    | drop => cases stored
    | put key document =>
      by_cases same : name = key
      · subst name
        rw [Entry.apply, Function.update_self] at stored
        exact (keyed key document (by simp)).2 doc stored
      · rw [Entry.apply, Function.update_of_ne same] at stored
        exact inductionHypothesis (fun k d inside => keyed k d (by simp [inside])) stored

/-- A log stays keyed when its new entry stores a document under the document's own name. -/
theorem Keyed.append_singleton {log : Log} (keyed : Keyed log)
    (entry : Entry String FilterDocument)
    (ok : ∀ key document, entry = .put key document →
      key ≠ "" ∧ ∀ doc, document = some doc → doc.name = key) :
    Keyed (log ++ [entry]) := by
  intro key document inside
  rcases List.mem_append.1 inside with earlier | last
  · exact keyed key document earlier
  · exact ok key document (List.mem_singleton.1 last).symm

/-- A prefix of a keyed log is keyed. -/
theorem Keyed.take {log : Log} (keyed : Keyed log) (count : Nat) : Keyed (log.take count) :=
  fun key document inside => keyed key document (List.mem_of_mem_take inside)

/-- A write logs at most one entry, and keeps every document under its name. -/
theorem write_spec (write : StoreWrite) (log : Log) (keyed : Keyed log)
    (named : ∀ name, write.name = some name → name ≠ "") :
    (write.apply log = log ∨ ∃ entry, write.apply log = log ++ [entry]) ∧
      Keyed (write.apply log) := by
  cases write with
  | upsert now doc =>
    have sameName : (upserted now doc (contents log doc.name)).name = doc.name := by
      cases before : contents log doc.name with
      | none => rfl
      | some old => exact keyed.name_eq doc.name old before
    simp only [StoreWrite.apply, upsert]
    split
    · exact ⟨Or.inl rfl, keyed⟩
    · refine ⟨Or.inr ⟨_, rfl⟩, keyed.append_singleton _ ?_⟩
      rintro key document same
      obtain ⟨rfl, rfl⟩ := Entry.put.inj same
      exact ⟨named _ rfl, fun stored is => Option.some.inj is ▸ sameName⟩
  | softDelete now name =>
    simp only [StoreWrite.apply, softDelete]
    cases before : contents log name with
    | none => exact ⟨Or.inl rfl, keyed⟩
    | some old =>
      dsimp only
      split
      · refine ⟨Or.inr ⟨_, rfl⟩, keyed.append_singleton _ ?_⟩
        rintro key document same
        obtain ⟨rfl, rfl⟩ := Entry.put.inj same
        refine ⟨named _ rfl, ?_⟩
        rintro stored is
        rw [← Option.some.inj is]
        exact keyed.name_eq name old before
      · exact ⟨Or.inl rfl, keyed⟩
  | hardDelete name =>
    simp only [StoreWrite.apply, hardDelete]
    cases before : contents log name with
    | none => exact ⟨Or.inl rfl, keyed⟩
    | some old =>
      refine ⟨Or.inr ⟨_, rfl⟩, keyed.append_singleton _ ?_⟩
      rintro key document same
      obtain ⟨rfl, rfl⟩ := Entry.put.inj same
      exact ⟨named _ rfl, nofun⟩
  | dropCollection =>
    exact ⟨Or.inr ⟨_, rfl⟩, keyed.append_singleton _ nofun⟩

end FluffyCore.MongoStore
