import FluffyCore.Library.Interleaving
import FluffyCore.Library.MapLoop

/-!
# Sessions in MongoDB

A session store keeps the values of each session in a document and gives the client a signed
cookie with the id of the document. A request reads its cookie and the document it names, works
on the values, and saves or deletes the session. Requests run concurrently; between their steps
the database may drop documents that have expired.

Signing is given by what it guarantees: a signed value comes back under the name it was signed
for, unless the codecs refuse it because it is too old or its key is gone, and a client cannot
make up a value that is accepted. Ids are numbered in the order in which they are made.
-/

namespace FluffyCore.Sessions

open Library.Interleaving Library.MapLoop

/-- A value of a session: a time, or anything else. -/
inductive Value where
  | time (instant : Nat)
  | other (text : String)
deriving DecidableEq

abbrev Values := FiniteMap String Value

/-- What `securecookie.EncodeMulti` makes of a value under a name. -/
structure Sealed (α : Type) where
  name : String
  content : α

/-- `securecookie.DecodeMulti`. -/
def decodeMulti {α : Type} (refused : Bool) (name : String) (value : Sealed α) : Option α :=
  if refused = false ∧ value.name = name then some value.content else none

/-- A session as a request holds it. A session that has not been saved has no id. -/
structure Session where
  name : String
  id : Option Nat
  values : Values
  maxAge : Int
  isNew : Bool

/-- A document of the collection, under the id of its session. -/
structure Document where
  data : Sealed Values
  modified : Nat

inductive StoreError where
  | invalidId
  | unreadable
  | invalidModified
  | encoding
  | database (text : String)
deriving DecidableEq

/-- What happened, in order: an id was made for a call, a call read or wrote a document, a
document was removed, or a cookie was set. -/
inductive Entry where
  | minted (call : Nat) (name : String) (id : Nat)
  | loaded (call id : Nat) (values : Values)
  | saved (call id : Nat) (values : Values)
  | removed (id : Nat)
  | issued (name : String) (id : Nat)

/-- The collection, the number of ids made so far, the cookies that were set, and the history. -/
structure Store where
  coll : FiniteMap Nat Document
  next : Nat
  issued : List (Sealed Nat)
  log : List Entry

/-- Where a request is. In `serving` the handler has the session, with the error of the last
operation; in `done` the request has been answered. -/
inductive Phase where
  | new (name : String)
  | loading (name : String) (id : Nat)
  | serving (session : Session) (err : Option StoreError)
  | deleting (session : Session) (id : Nat)
  | replacing (session : Session) (id modified : Nat)
  | sealing (session : Session) (id : Nat)
  | done (name : String)

/-- What a step does not determine: the cookie of the request, what the handler does with the
session, and how the libraries and the database answer. A write that fails may have been
carried out all the same. -/
inductive Choice where
  | noToken
  | forged
  | presents (index : Nat) (refused : Bool)
  | find (failure : Option String) (refused : Bool)
  | set (key : String) (value : Value)
  | unset (key : String)
  | setMaxAge (age : Int)
  | save (now : Nat) (encodes : Bool)
  | write (failure : Option String) (applied : Bool)
  | seal (encodes : Bool)
  | finish

/-- The session `New` starts with. -/
def newSession (name : String) (maxAge : Int) : Session := ⟨name, none, ∅, maxAge, true⟩

/-- The time a document is marked with in `upsert`: the session's own or the current one. -/
def modifiedTime (session : Session) (now : Nat) : Option Nat :=
  match session.values.lookup "modified" with
  | some (.time instant) => some instant
  | some (.other _) => none
  | none => some now

/-- The document `upsert` writes. -/
def document (session : Session) (modified : Nat) : Document :=
  ⟨⟨session.name, session.values⟩, modified⟩

/-- `New` with the token of the request. -/
def readToken (maxAge : Int) (s : Store) (name : String) : Choice → Option Phase
  | .noToken => some (.serving (newSession name maxAge) none)
  | .forged => some (.serving (newSession name maxAge) (some .unreadable))
  | .presents index refused =>
      (s.issued[index]?).map fun cookie =>
        match decodeMulti refused name cookie with
        | none => .serving (newSession name maxAge) (some .unreadable)
        | some id => .loading name id
  | _ => none

/-- The history after a document was read. -/
def Store.noteLoaded (s : Store) (call id : Nat) (values : Values) : Store :=
  { s with log := s.log ++ [.loaded call id values] }

/-- `loadExisting`: the session has its id back only if its document could be read. -/
def loadExisting (maxAge : Int) (call : Nat) (s : Store) (name : String) (id : Nat)
    (failure : Option String) (refused : Bool) : Store × Phase :=
  match failure with
  | some text => (s, .serving (newSession name maxAge) (some (.database text)))
  | none =>
      match s.coll.lookup id with
      | none => (s, .serving (newSession name maxAge) none)
      | some doc =>
          match decodeMulti refused name doc.data with
          | none => (s, .serving (newSession name maxAge) (some .unreadable))
          | some values =>
              (s.noteLoaded call id values, .serving ⟨name, some id, values, maxAge, false⟩ none)

/-- The store after an id was made. -/
def Store.mint (s : Store) (call : Nat) (name : String) : Store :=
  { s with next := s.next + 1, log := s.log ++ [.minted call name s.next] }

/-- `Save` up to its first access to the database. -/
def save (call : Nat) (s : Store) (session : Session) (now : Nat) (encodes : Bool) :
    Store × Phase :=
  if session.maxAge < 0 then
    match session.id with
    | none => (s, .serving session (some .invalidId))
    | some id => (s, .deleting session id)
  else
    let (s, id) := match session.id with
      | some id => (s, id)
      | none => (s.mint call session.name, s.next)
    match modifiedTime session now with
    | none => (s, .serving { session with id := some id } (some .invalidModified))
    | some modified =>
        if encodes then (s, .replacing session id modified)
        else (s, .serving { session with id := some id } (some .encoding))

/-- The store after an access to the database that may not have been carried out. -/
def afterWrite (failure : Option String) (applied : Bool) (s changed : Store) : Store :=
  if failure = none ∨ applied = true then changed else s

/-- Where a request goes on after an access to the database. -/
def onFailure (failure : Option String) (session : Session) (id : Nat) (next : Phase) : Phase :=
  match failure with
  | none => next
  | some text => .serving { session with id := some id } (some (.database text))

/-- The store without a document. -/
def Store.remove (s : Store) (id : Nat) : Store :=
  { s with coll := s.coll.erase id, log := s.log ++ [.removed id] }

/-- The store with the document of a session. -/
def Store.replace (s : Store) (call : Nat) (session : Session) (id modified : Nat) : Store :=
  { s with coll := s.coll.insert id (document session modified)
           log := s.log ++ [.saved call id session.values] }

/-- The store after a cookie was set. -/
def Store.setToken (s : Store) (name : String) (id : Nat) : Store :=
  { s with issued := s.issued ++ [⟨name, id⟩], log := s.log ++ [.issued name id] }

/-- One step of a request. -/
def Phase.next (maxAge : Int) (choice : Choice) (call : Nat) (s : Store) (phase : Phase) :
    Option (Store × Phase) :=
  match phase, choice with
  | .new name, choice => (readToken maxAge s name choice).map fun phase => (s, phase)
  | .loading name id, .find failure refused =>
      some (loadExisting maxAge call s name id failure refused)
  | .serving session err, .set key value =>
      some (s, .serving { session with values := session.values.insert key value } err)
  | .serving session err, .unset key =>
      some (s, .serving { session with values := session.values.erase key } err)
  | .serving session err, .setMaxAge age => some (s, .serving { session with maxAge := age } err)
  | .serving session _, .save now encodes => some (save call s session now encodes)
  | .serving session _, .finish => some (s, .done session.name)
  | .deleting session id, .write failure applied =>
      some (afterWrite failure applied s (s.remove id),
        onFailure failure session id (.serving { session with id := some id } none))
  | .replacing session id modified, .write failure applied =>
      some (afterWrite failure applied s (s.replace call session id modified),
        onFailure failure session id (.sealing session id))
  | .sealing session id, .seal encodes =>
      if encodes then
        some (s.setToken session.name id, .serving { session with id := some id } none)
      else some (s, .serving { session with id := some id } (some .encoding))
  | _, _ => none

/-- Requests on one store, each for a session name. An event is the removal of a document that
has expired. -/
def sessionSystem (maxAge : Int) : System Store Phase String Choice Nat where
  initial := ⟨∅, 0, [], []⟩
  begin name := .new name
  move choice call s phase := phase.next maxAge choice call s
  event id s := some (s.remove id)

/-- The name of the session a request is for. -/
def Phase.name : Phase → String
  | .new name => name
  | .loading name _ => name
  | .serving session _ => session.name
  | .deleting session _ => session.name
  | .replacing session _ _ => session.name
  | .sealing session _ => session.name
  | .done name => name

/-- The id of the session a request holds. -/
def Phase.held : Phase → Option Nat
  | .new _ => none
  | .loading _ _ => none
  | .serving session _ => session.id
  | .deleting _ id => some id
  | .replacing _ id _ => some id
  | .sealing _ id => some id
  | .done _ => none

/-- The id a request has read from its cookie and not looked up yet. -/
def Phase.asked : Phase → Option Nat
  | .loading _ id => some id
  | _ => none

/-- What a step can do to the store and to what its request holds. -/
inductive SessionStep (call : Nat) (s : Store) (phase : Phase) : Store → Phase → Prop where
  /-- The store and what the request holds stay. -/
  | keep (phase' : Phase) (named : phase'.name = phase.name) (holds : phase'.held = phase.held)
      (asks : phase'.asked = none) : SessionStep call s phase s phase'
  /-- The request lets go of its session. -/
  | leave (phase' : Phase) (named : phase'.name = phase.name) (free : phase'.held = none)
      (asks : phase'.asked = none) : SessionStep call s phase s phase'
  /-- A cookie is accepted. -/
  | ask (id : Nat) (phase' : Phase) (named : phase'.name = phase.name) (holds : phase'.held = none)
      (asks : phase'.asked = some id) (accepted : ⟨phase.name, id⟩ ∈ s.issued) :
      SessionStep call s phase s phase'
  /-- A document is read. -/
  | load (id : Nat) (doc : Document) (phase' : Phase) (named : phase'.name = phase.name)
      (holds : phase'.held = some id) (asks : phase'.asked = none) (asked : phase.asked = some id)
      (found : s.coll.lookup id = some doc) (same : doc.data.name = phase.name) :
      SessionStep call s phase (s.noteLoaded call id doc.data.content) phase'
  /-- An id is made. -/
  | mint (phase' : Phase) (named : phase'.name = phase.name) (free : phase.held = none)
      (holds : phase'.held = some s.next) (asks : phase'.asked = none) :
      SessionStep call s phase (s.mint call phase.name) phase'
  /-- A document is written. -/
  | replace (session : Session) (id modified : Nat) (phase' : Phase)
      (isName : session.name = phase.name) (named : phase'.name = phase.name)
      (held : phase.held = some id) (holds : phase'.held = some id) (asks : phase'.asked = none) :
      SessionStep call s phase (s.replace call session id modified) phase'
  /-- A document is removed. -/
  | remove (id : Nat) (phase' : Phase) (named : phase'.name = phase.name)
      (held : phase.held = some id) (holds : phase'.held = some id) (asks : phase'.asked = none) :
      SessionStep call s phase (s.remove id) phase'
  /-- A cookie is set. -/
  | issue (id : Nat) (phase' : Phase) (named : phase'.name = phase.name)
      (held : phase.held = some id) (holds : phase'.held = some id) (asks : phase'.asked = none) :
      SessionStep call s phase (s.setToken phase.name id) phase'

section Steps

variable {maxAge : Int} {call : Nat} {s : Store}

/-- A value that is decoded was sealed for the name it is decoded with. -/
theorem decodeMulti_eq_some {α : Type} {refused : Bool} {name : String} {value : Sealed α}
    {content : α} (decoded : decodeMulti refused name value = some content) :
    value = ⟨name, content⟩ := by
  unfold decodeMulti at decoded
  split at decoded
  · next accepted =>
    obtain rfl := Option.some.inj decoded
    obtain ⟨_, rfl⟩ := accepted
    rfl
  · cases decoded

/-- Reading the token makes no change, and an id comes from a cookie that was set. -/
theorem readToken_step {name : String} {choice : Choice} {phase' : Phase}
    (read : readToken maxAge s name choice = some phase') :
    SessionStep call s (.new name) s phase' := by
  unfold readToken at read
  split at read
  · obtain rfl := Option.some.inj read
    exact .keep _ rfl rfl rfl
  · obtain rfl := Option.some.inj read
    exact .keep _ rfl rfl rfl
  · next index refused =>
    obtain ⟨cookie, isCookie, rfl⟩ := Option.map_eq_some_iff.1 read
    cases decoded : decodeMulti refused name cookie with
    | none => exact .keep _ rfl rfl rfl
    | some id =>
      obtain rfl := decodeMulti_eq_some decoded
      exact .ask id _ rfl rfl rfl (List.mem_of_getElem? isCookie)
  · cases read

/-- Loading reads a document of the name of the request or leaves the store alone. -/
theorem loadExisting_step (name : String) (id : Nat) (failure : Option String) (refused : Bool) :
    SessionStep call s (.loading name id) (loadExisting maxAge call s name id failure refused).1
      (loadExisting maxAge call s name id failure refused).2 := by
  unfold loadExisting
  split
  · exact .keep _ rfl rfl rfl
  · split
    · exact .keep _ rfl rfl rfl
    · next doc found =>
      split
      · exact .keep _ rfl rfl rfl
      · next values decoded =>
        have sealedAs := decodeMulti_eq_some decoded
        have step : SessionStep call s (.loading name id) (s.noteLoaded call id doc.data.content)
            (.serving ⟨name, some id, values, maxAge, false⟩ none) :=
          .load id doc _ rfl rfl rfl rfl found (by rw [sealedAs]; rfl)
        rwa [sealedAs] at step

/-- The steps of `Save` before the database: an id is made if there is none. -/
theorem save_step (session : Session) (err : Option StoreError) (now : Nat) (encodes : Bool) :
    SessionStep call s (.serving session err) (save call s session now encodes).1
      (save call s session now encodes).2 := by
  rcases session with ⟨name, _ | id, values, age, isNew⟩
  · unfold save
    split
    · exact .keep _ rfl rfl rfl
    · simp only
      split
      · exact .mint _ rfl rfl rfl rfl
      · split
        · exact .mint _ rfl rfl rfl rfl
        · exact .mint _ rfl rfl rfl rfl
  · unfold save
    split
    · exact .keep _ rfl rfl rfl
    · simp only
      split
      · exact .keep _ rfl rfl rfl
      · split
        · exact .keep _ rfl rfl rfl
        · exact .keep _ rfl rfl rfl

/-- A request holds on to its session, whether the operation fails or not. -/
theorem held_onFailure (failure : Option String) (session : Session) (id : Nat) (next : Phase)
    (named : next.name = session.name) (holds : next.held = some id) (asks : next.asked = none) :
    (onFailure failure session id next).name = session.name ∧
      (onFailure failure session id next).held = some id ∧
      (onFailure failure session id next).asked = none := by
  cases failure with
  | none => exact ⟨named, holds, asks⟩
  | some text => exact ⟨rfl, rfl, rfl⟩

/-- A step of a request does one of the things that steps can do. -/
theorem next_step (choice : Choice) (phase phase' : Phase) (s' : Store)
    (moved : phase.next maxAge choice call s = some (s', phase')) :
    SessionStep call s phase s' phase' := by
  unfold Phase.next at moved
  split at moved
  · obtain ⟨_, read, same⟩ := Option.map_eq_some_iff.1 moved
    obtain ⟨rfl, rfl⟩ := Prod.mk.inj same
    exact readToken_step read
  · obtain ⟨rfl, rfl⟩ := Prod.mk.inj (Option.some.inj moved)
    exact loadExisting_step _ _ _ _
  · obtain ⟨rfl, rfl⟩ := Prod.mk.inj (Option.some.inj moved)
    exact .keep _ rfl rfl rfl
  · obtain ⟨rfl, rfl⟩ := Prod.mk.inj (Option.some.inj moved)
    exact .keep _ rfl rfl rfl
  · obtain ⟨rfl, rfl⟩ := Prod.mk.inj (Option.some.inj moved)
    exact .keep _ rfl rfl rfl
  · obtain ⟨rfl, rfl⟩ := Prod.mk.inj (Option.some.inj moved)
    exact save_step _ _ _ _
  · obtain ⟨rfl, rfl⟩ := Prod.mk.inj (Option.some.inj moved)
    exact .leave _ rfl rfl rfl
  · next session id failure applied =>
    obtain ⟨rfl, rfl⟩ := Prod.mk.inj (Option.some.inj moved)
    obtain ⟨named, holds, asks⟩ := held_onFailure failure session id
      (.serving { session with id := some id } none) rfl rfl rfl
    unfold afterWrite
    split
    · exact .remove id _ named rfl holds asks
    · exact .keep _ named holds asks
  · next session id modified failure applied =>
    obtain ⟨rfl, rfl⟩ := Prod.mk.inj (Option.some.inj moved)
    obtain ⟨named, holds, asks⟩ := held_onFailure failure session id (.sealing session id) rfl rfl
      rfl
    unfold afterWrite
    split
    · exact .replace session id modified _ rfl named rfl holds asks
    · exact .keep _ named holds asks
  · next session id encodes =>
    split at moved
    · obtain ⟨rfl, rfl⟩ := Prod.mk.inj (Option.some.inj moved)
      exact .issue id _ rfl rfl rfl rfl
    · obtain ⟨rfl, rfl⟩ := Prod.mk.inj (Option.some.inj moved)
      exact .keep _ rfl rfl rfl
  · cases moved

end Steps

end FluffyCore.Sessions
