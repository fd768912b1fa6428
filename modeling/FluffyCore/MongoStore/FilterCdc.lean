import FluffyCore.Library.Reachability
import FluffyCore.MongoStore.FilterStore

/-!
# Following the collection

One `FilterCDC` turns the collection into a sequence of changes on a channel. A
`Run` without a saved position pins the end of the log, sends a snapshot of the
active filters and the removals it implies, and then tails the change stream from
the pin; a `Run` with one resumes there. Writers act between any two of its steps.

A position is a number of log entries: a stream opened at a position reports the
writes from that entry on. Positions, listings and looked-up documents are chosen
freely within what the server guarantees, and every database call may fail. The
guarantees are a parameter of the steps. On the collection, the stream's own token
never lies after an entry it has not reported. A server without such guarantees may
answer with anything but two documents of one name, which is the key.
-/

namespace FluffyCore.MongoStore

open Library.MapLoop Library.ChangeLog

/-- What the caller receives. Only an upsert carries a document. -/
inductive FilterChange where
  | upsert (name : String) (doc : FilterDocument)
  | delete (name : String)
  | ready

/-- The caller's map after one change. -/
def applyChange (held : FiniteMap String FilterDocument) :
    FilterChange → FiniteMap String FilterDocument
  | .upsert name doc => held.insert name doc
  | .delete name => held.erase name
  | .ready => held

def OperationType.text : OperationType → String
  | .insert => "insert"
  | .update => "update"
  | .replace => "replace"
  | .delete => "delete"
  | .other => ""

/-- A written document is an upsert, or a removal when it is soft-deleted. -/
def writtenChange (doc : FilterDocument) : FilterChange :=
  if doc.deletedAt ≠ none then .delete doc.name else .upsert doc.name doc

/-- The branch of `decodeEvent` for inserts, updates and replacements. -/
def decodeWritten (opType : OperationType) :
    Option FilterDocument → Except String (Option FilterChange)
  | none => .error ("fullDocument missing or not a document for op \"" ++ opType.text ++ "\"")
  | some doc => .ok (some (writtenChange doc))

/-- `decodeEvent`: nothing for operations the CDC does not act on. -/
def decodeEvent (raw : ChangeEvent) : Except String (Option FilterChange) :=
  match raw.operationType with
  | .insert => decodeWritten .insert raw.fullDocument
  | .update => decodeWritten .update raw.fullDocument
  | .replace => decodeWritten .replace raw.fullDocument
  | .delete =>
      if raw.documentKey = "" then .error "documentKey._id empty in delete event"
      else .ok (some (.delete raw.documentKey))
  | .other => .ok none

/-- The fields a `FilterCDC` keeps between calls of `Run`. -/
structure FilterCdc where
  resumeToken : Option Nat := none
  resumeTime : Option Nat := none
  live : Finset String := ∅

def FilterCdc.track (c : FilterCdc) : FilterChange → FilterCdc
  | .upsert name _ => { c with live := insert name c.live }
  | .delete name => { c with live := c.live.erase name }
  | .ready => c

def FilterCdc.forgetPosition (c : FilterCdc) : FilterCdc :=
  { c with resumeToken := none, resumeTime := none }

/-- Keep the stream's token when it has one. -/
def FilterCdc.rememberPosition (c : FilterCdc) : Option Nat → FilterCdc
  | some token => { c with resumeToken := some token }
  | none => c

/-- The saved position: the token, or the pinned time before there is one. -/
def FilterCdc.position (c : FilterCdc) : Option Nat :=
  c.resumeToken.or c.resumeTime

/-- `staleNames`, in the order the map happens to be visited. -/
def StaleNames (live : Finset String) (docs : List FilterDocument) (stale : List String) : Prop :=
  stale.Nodup ∧ ∀ name, name ∈ stale ↔ name ∈ live ∧ name ∉ docs.map (·.name)

/-- An error of a database call: one the server reports with codes, or any other. -/
inductive DbError where
  | server (codes : List Nat)
  | other

/-- CappedPositionLost, InvalidResumeToken, ChangeStreamFatalError, ChangeStreamHistoryLost. -/
def resumeLostCodes : List Nat := [136, 260, 280, 286]

def isResumeLost : DbError → Bool
  | .server codes => resumeLostCodes.any fun code => codes.contains code
  | .other => false

/-- Where a `Run` stands. -/
inductive Phase where
  | idle
  /-- At the start of `runOnce`. -/
  | starting
  /-- Listing the active filters, begun when the log had `start` entries. -/
  | listing (pin start : Nat)
  | upserting (pin : Nat) (docs remaining : List FilterDocument)
  | removing (pin : Nat) (docs : List FilterDocument) (remaining : List String)
  /-- About to open the change stream. -/
  | opening (position : Nat)
  /-- The stream is open and the ready signal is being sent. -/
  | announcing (position : Nat)
  | tailing (position : Nat)
  /-- The event at a position was decoded and is being sent. -/
  | sending (position : Nat) (change : FilterChange)

/-- Where a delivered change came from. -/
inductive Source where
  | snapshot
  | event (position : Nat)
  | announcement
deriving DecidableEq

structure Delivery where
  change : FilterChange
  source : Source

/-- The collection, the CDC, the current `Run` and what was delivered so far. The
last two fields record the pins of completed snapshots and the positions of events
that could not be decoded. -/
structure World where
  log : Log := []
  cdc : FilterCdc := {}
  phase : Phase := .idle
  cancelled : Bool := false
  retried : Bool := false
  delivered : List Delivery := []
  snapshots : List Nat := []
  skipped : List Nat := []

/-- The map of a caller who applied every delivered change in order. -/
def World.consumer (w : World) : FiniteMap String FilterDocument :=
  (w.delivered.map (·.change)).foldl applyChange ∅

/-- A send on the channel succeeds. -/
def World.send (w : World) (change : FilterChange) (source : Source) : World :=
  { w with delivered := w.delivered ++ [⟨change, source⟩] }

/-- `Run` after an error of `runOnce`: a lost position is forgotten and the attempt
repeated once, unless the context is done. -/
def World.fail (w : World) (err : DbError) : World :=
  if isResumeLost err ∧ w.cancelled = false ∧ w.retried = false then
    { w with cdc := w.cdc.forgetPosition, phase := .starting, retried := true }
  else { w with phase := .idle }

/-- The phases in which a send is pending. -/
def Phase.Sends : Phase → Prop
  | .upserting _ _ remaining => remaining ≠ []
  | .removing _ _ remaining => remaining ≠ []
  | .announcing _ => True
  | .sending _ _ => True
  | _ => False

/-- The phases in which a database call is pending. -/
def World.Calls (w : World) : Prop :=
  match w.phase with
  | .starting => w.cdc.position = none
  | .listing _ _ => True
  | .opening _ => True
  | .tailing _ => True
  | _ => False

/-- The token of a stream that has reported everything before a position. -/
def TokenAt (position : Nat) (token : Option Nat) : Prop :=
  token = none ∨ token = some position

/-- What a server may do, as far as a `FilterCDC` can tell. -/
structure Server where
  /-- A write turns one log into another. -/
  writes : Log → Log → Prop
  /-- The end of the log as the server reports it, and when the listing after it begins. -/
  pins : Log → Nat → Nat → Prop
  /-- The answer to a listing that began when the log had some number of entries. -/
  lists : Log → Nat → List FilterDocument → Prop
  /-- The token of a stream that has reported everything before a position. -/
  tokens : Nat → Option Nat → Prop
  /-- The event that a stream at a position reports next. -/
  reports : Log → Nat → ChangeEvent → Prop
  /-- A stream at a position is invalidated. -/
  drops : Log → Nat → Prop

/-- The collection of a `FilterStore`. A document is looked up some time after the write that
an event is about. -/
def collection : Server where
  writes log after := ∃ write : StoreWrite,
    (∀ name, write.name = some name → name ≠ "") ∧ after = write.apply log
  pins log pin start := pin ≤ log.length ∧ start = log.length
  lists := Listing
  tokens := TokenAt
  reports log position raw := ∃ moment, position < moment ∧ moment ≤ log.length ∧
    changeEvent log position moment = some raw
  drops log position := log[position]? = some .drop

/-- A server that may do anything, but list two documents of one name. -/
def anyServer : Server where
  writes _ _ := True
  pins _ _ _ := True
  lists _ _ docs := (docs.map (·.name)).Nodup
  tokens _ _ := True
  reports _ _ _ := True
  drops _ _ := True

/-- One step of a writer or of the CDC on a server. -/
inductive CdcStep (server : Server) : World → World → Prop where
  | write (w : World) (log : Log) (written : server.writes w.log log) :
      CdcStep server w { w with log := log }
  | cancel (w : World) : CdcStep server w { w with cancelled := true }
  | run (w : World) (cancelled : Bool) (idle : w.phase = .idle) :
      CdcStep server w { w with phase := .starting, cancelled := cancelled, retried := false }
  | resume (w : World) (position : Nat) (starting : w.phase = .starting)
      (saved : w.cdc.position = some position) :
      CdcStep server w { w with phase := .opening position }
  | pin (w : World) (pin start : Nat) (starting : w.phase = .starting)
      (unsaved : w.cdc.position = none) (pinned : server.pins w.log pin start) :
      CdcStep server w { w with phase := .listing pin start }
  | list (w : World) (pin start : Nat) (docs : List FilterDocument)
      (listing : w.phase = .listing pin start) (listed : server.lists w.log start docs) :
      CdcStep server w { w with phase := .upserting pin docs docs }
  | sendUpsert (w : World) (pin : Nat) (docs remaining : List FilterDocument)
      (doc : FilterDocument) (upserting : w.phase = .upserting pin docs (doc :: remaining)) :
      CdcStep server w { w.send (.upsert doc.name doc) .snapshot with
        cdc := w.cdc.track (.upsert doc.name doc), phase := .upserting pin docs remaining }
  | stale (w : World) (pin : Nat) (docs : List FilterDocument) (stale : List String)
      (upserted : w.phase = .upserting pin docs []) (names : StaleNames w.cdc.live docs stale) :
      CdcStep server w { w with phase := .removing pin docs stale }
  | sendRemoval (w : World) (pin : Nat) (docs : List FilterDocument) (name : String)
      (remaining : List String) (removing : w.phase = .removing pin docs (name :: remaining)) :
      CdcStep server w { w.send (.delete name) .snapshot with
        cdc := w.cdc.track (.delete name), phase := .removing pin docs remaining }
  | snapshotted (w : World) (pin : Nat) (docs : List FilterDocument)
      (removed : w.phase = .removing pin docs []) :
      CdcStep server w { w with
        cdc := { w.cdc with resumeTime := some pin }, snapshots := w.snapshots ++ [pin],
        phase := .opening pin }
  | watch (w : World) (position : Nat) (token : Option Nat) (opening : w.phase = .opening position)
      (bounded : server.tokens position token) :
      CdcStep server w { w with
        cdc := w.cdc.rememberPosition token, phase := .announcing position }
  | announce (w : World) (position : Nat) (announcing : w.phase = .announcing position) :
      CdcStep server w { w.send .ready .announcement with phase := .tailing position }
  | next (w : World) (position : Nat) (raw : ChangeEvent) (change : FilterChange)
      (tailing : w.phase = .tailing position) (event : server.reports w.log position raw)
      (decoded : decodeEvent raw = .ok (some change)) :
      CdcStep server w { w with phase := .sending position change }
  | ignore (w : World) (position : Nat) (raw : ChangeEvent) (token : Option Nat)
      (tailing : w.phase = .tailing position) (event : server.reports w.log position raw)
      (decoded : decodeEvent raw = .ok none) (bounded : server.tokens (position + 1) token) :
      CdcStep server w { w with
        cdc := w.cdc.rememberPosition token, phase := .tailing (position + 1) }
  | skip (w : World) (position : Nat) (raw : ChangeEvent) (message : String)
      (token : Option Nat) (tailing : w.phase = .tailing position)
      (event : server.reports w.log position raw)
      (undecodable : decodeEvent raw = .error message)
      (bounded : server.tokens (position + 1) token) :
      CdcStep server w { w with
        cdc := w.cdc.rememberPosition token, skipped := w.skipped ++ [position],
        phase := .tailing (position + 1) }
  | deliver (w : World) (position : Nat) (change : FilterChange) (token : Option Nat)
      (sending : w.phase = .sending position change)
      (bounded : server.tokens (position + 1) token) :
      CdcStep server w { w.send change (.event position) with
        cdc := (w.cdc.track change).rememberPosition token, phase := .tailing (position + 1) }
  | abort (w : World) (sends : w.phase.Sends) (cancelled : w.cancelled = true) :
      CdcStep server w { w with phase := .idle }
  | fail (w : World) (err : DbError) (calls : w.Calls) : CdcStep server w (w.fail err)
  | invalidated (w : World) (position : Nat) (tailing : w.phase = .tailing position)
      (dropped : server.drops w.log position) (running : w.cancelled = false) :
      CdcStep server w { w with cdc := w.cdc.forgetPosition, phase := .idle }
  | invalidatedCancelled (w : World) (position : Nat) (tailing : w.phase = .tailing position)
      (dropped : server.drops w.log position) (cancelled : w.cancelled = true) :
      CdcStep server w { w with phase := .idle }

/-- The steps on the collection of the store. -/
abbrev Step : World → World → Prop := CdcStep collection

/-- The steps on a server that may return anything. -/
abbrev FreeStep : World → World → Prop := CdcStep anyServer

/-- A new `FilterCDC` on a collection with some history, whose consumer holds nothing. -/
def Initial (w : World) : Prop :=
  ∃ log, Keyed log ∧ w = { log := log }

/-- The position of an open change stream: the first entry not yet delivered. -/
def World.streamPosition (w : World) : Option Nat :=
  match w.phase with
  | .announcing position => some position
  | .tailing position => some position
  | .sending position _ => some position
  | _ => none

end FluffyCore.MongoStore
