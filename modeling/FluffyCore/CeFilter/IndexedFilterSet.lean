import FluffyCore.CeFilter.Parser
import FluffyCore.CeFilter.TypeConstraint
import FluffyCore.Library.Compaction

/-!
# The indexed filter set

A filter is filed under every exact type its constraint names, in a list of globs
for the patterns it names, or in the wildcard list when its type is not
constrained. A query looks at one bucket, the globs and the wildcards. The three
indexes hold pointers to one shared record per filter, and `Stats` counts
pointers, so a record carries the address it was allocated at.

Every method runs under the set's lock from start to end. The model therefore
takes each method as one step.
-/

namespace FluffyCore.CeFilter

open Library.MapLoop Library.Compaction Library.QuotedText

/-- What the caller registers: the name is the identity, the rest is returned. -/
structure FilterEntry where
  name : String
  hint : String
  metadata : FiniteMap String String
deriving DecidableEq

structure IndexedEntry where
  address : Nat
  entry : FilterEntry
  pred : Predicate

structure GlobIndexEntry where
  rx : Regexp
  entry : IndexedEntry

/-- The fields of the set, with the next address an allocation returns. A nil map
of the source reads as an empty one. -/
structure IndexedFilterSet where
  maxMatches : Int := 0
  names : Finset String := ∅
  exactIndex : FiniteMap String (List IndexedEntry) := ∅
  globEntries : List GlobIndexEntry := []
  wildcardEntries : List IndexedEntry := []
  nextAddress : Nat := 0

/-- The bucket of a type; a missing key reads as an empty slice. -/
def IndexedFilterSet.bucket (fs : IndexedFilterSet) (t : String) : List IndexedEntry :=
  (fs.exactIndex.lookup t).getD []

/-- A bucket that keeps no entry is deleted, any other is stored back. -/
def keepBucket (kept : List IndexedEntry) : Option (List IndexedEntry) :=
  if kept.isEmpty then none else some kept

/-- Drop every index entry of a name. The three lists are compacted in place. -/
def IndexedFilterSet.removeLocked (fs : IndexedFilterSet) (name : String) : IndexedFilterSet :=
  { fs with
    names := fs.names.erase name
    exactIndex := updateEach
      (fun _ entries => keepBucket (compact (fun e => e.entry.name != name) (entries.getD [])))
      fs.exactIndex.keys fs.exactIndex
    globEntries := compact (fun ge => ge.entry.entry.name != name) fs.globEntries
    wildcardEntries := compact (fun e => e.entry.name != name) fs.wildcardEntries }

def IndexedFilterSet.remove (fs : IndexedFilterSet) (name : String) : IndexedFilterSet :=
  fs.removeLocked name

/-- File a new record under a constraint. One that lists nothing at all goes to
the wildcards like one that is unconstrained. -/
def IndexedFilterSet.file (fs : IndexedFilterSet) (ie : IndexedEntry) (tc : TypeConstraint) :
    IndexedFilterSet :=
  if tc.unconstrained then { fs with wildcardEntries := fs.wildcardEntries ++ [ie] }
  else
    { fs with
      exactIndex := updateEach (fun _ entries => some (entries.getD [] ++ [ie])) tc.exact
        fs.exactIndex
      globEntries := fs.globEntries ++ tc.globs.map fun rx => ⟨rx, ie⟩
      wildcardEntries :=
        if tc.exact.card = 0 ∧ tc.globs.length = 0 then fs.wildcardEntries ++ [ie]
        else fs.wildcardEntries }

/-- The error of an expression that does not compile, as the caller sees it. -/
def addError (unicode : Unicode) (name : String) : ParseError → ParseError
  | .failure message => .failure ("filter " ++ quote unicode name ++ ": " ++ message)
  | .fuelExhausted => .fuelExhausted

/-- Compile and register an expression, replacing the filter of the same name. -/
def IndexedFilterSet.add (unicode : Unicode) (fs : IndexedFilterSet) (entry : FilterEntry)
    (expr : String) : Except ParseError Unit × IndexedFilterSet :=
  match parse unicode expr with
  | .error err => (.error (addError unicode entry.name err), fs)
  | .ok pred =>
    let ie : IndexedEntry := ⟨fs.nextAddress, entry, pred⟩
    let tc := extractTypeConstraint pred
    let cleared := if entry.name ∈ fs.names then fs.removeLocked entry.name else fs
    let named := { cleared with
      names := insert entry.name cleared.names
      nextAddress := cleared.nextAddress + 1 }
    (.ok (), named.file ie tc)

/-- The records a query on one type looks at, in the order it looks at them. -/
def IndexedFilterSet.candidates (fs : IndexedFilterSet) (t : String) : List IndexedEntry :=
  fs.bucket t ++ (fs.globEntries.filter fun ge => ge.rx.matchString t).map (·.entry) ++
    fs.wildcardEntries

/-- The local variables of `Match`. The counts are the arguments of the calls to
`OnLimitExceeded`, made when that callback is set. -/
structure MatchState where
  seen : Finset String := ∅
  matched : List FilterEntry := []
  done : Bool := false
  limitCalls : List Nat := []

/-- The closure `add` of `Match`. -/
def MatchState.add (maxMatches : Int) (a : Attrs) (state : MatchState) (e : IndexedEntry) :
    MatchState :=
  if state.done then state
  else if e.entry.name ∈ state.seen then state
  else
    let state := { state with seen := insert e.entry.name state.seen }
    if e.pred.matchAttrs a then
      let state := { state with matched := state.matched ++ [e.entry] }
      if maxMatches > 0 ∧ maxMatches ≤ state.matched.length then
        { state with
          limitCalls := state.limitCalls ++ [state.matched.length]
          done := true }
      else state
    else state

/-- The type a query reads off an event; an absent attribute reads as "". -/
def eventType (a : Attrs) : String := (a.lookup "type").getD ""

/-- `Match`: the entries collected, with the calls to `OnLimitExceeded`. The loops
stop at the first record after `done`, which `add` ignores anyway. -/
def IndexedFilterSet.matchScan (fs : IndexedFilterSet) (a : Attrs) : MatchState :=
  (fs.candidates (eventType a)).foldl (MatchState.add fs.maxMatches a) {}

def IndexedFilterSet.matchAttrs (fs : IndexedFilterSet) (a : Attrs) : List FilterEntry :=
  (fs.matchScan a).matched

/-- `MatchAny` returns at the first record that matches. -/
def IndexedFilterSet.matchAny (fs : IndexedFilterSet) (a : Attrs) : Bool :=
  (fs.bucket (eventType a)).any (fun e => e.pred.matchAttrs a) ||
    fs.globEntries.any (fun ge => ge.rx.matchString (eventType a) &&
      ge.entry.pred.matchAttrs a) ||
    fs.wildcardEntries.any (fun e => e.pred.matchAttrs a)

/-- The local variables of `MatchEndpoints`, with the calls to `OnLimitExceeded`. -/
structure EndpointState where
  seenNames : Finset String := ∅
  seenHints : Finset String := ∅
  endpoints : List String := []
  done : Bool := false
  limitCalls : List Nat := []

/-- The closure `add` of `MatchEndpoints`. -/
def EndpointState.add (maxMatches : Int) (a : Attrs) (state : EndpointState) (e : IndexedEntry) :
    EndpointState :=
  if state.done then state
  else if e.entry.name ∈ state.seenNames then state
  else
    let state := { state with seenNames := insert e.entry.name state.seenNames }
    let hint := e.entry.hint
    if hint = "" then state
    else if hint ∈ state.seenHints then state
    else if e.pred.matchAttrs a then
      let state := { state with
        seenHints := insert hint state.seenHints
        endpoints := state.endpoints ++ [hint] }
      if maxMatches > 0 ∧ maxMatches ≤ state.endpoints.length then
        { state with
          limitCalls := state.limitCalls ++ [state.endpoints.length]
          done := true }
      else state
    else state

/-- `MatchEndpoints`: the hints collected, with the calls to `OnLimitExceeded`. -/
def IndexedFilterSet.endpointScan (fs : IndexedFilterSet) (a : Attrs) : EndpointState :=
  (fs.candidates (eventType a)).foldl (EndpointState.add fs.maxMatches a) {}

def IndexedFilterSet.matchEndpoints (fs : IndexedFilterSet) (a : Attrs) : List String :=
  (fs.endpointScan a).endpoints

structure IndexStats where
  total : Nat
  exactTypeBuckets : Nat
  globEntries : Nat
  unconstrained : Nat

/-- The distinct records reachable through the buckets and the globs. -/
def IndexedFilterSet.seenAddresses (fs : IndexedFilterSet) : Finset Nat :=
  (fs.exactIndex.keys.biUnion fun t => ((fs.bucket t).map (·.address)).toFinset) ∪
    (fs.globEntries.map (·.entry.address)).toFinset

def IndexedFilterSet.stats (fs : IndexedFilterSet) : IndexStats where
  total := fs.seenAddresses.card + fs.wildcardEntries.length
  exactTypeBuckets := fs.exactIndex.keys.card
  globEntries := fs.globEntries.length
  unconstrained := fs.wildcardEntries.length

end FluffyCore.CeFilter
