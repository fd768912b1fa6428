import FluffyCore.MongoStore.CdcPosition

/-!
# What is reported live

A `FilterCDC` keeps the names it has reported and not since removed. That these are the names
its consumer holds does not depend on what the server returns: listings, events, tokens and
errors are arbitrary. Only the names of one listing are distinct, since they are the keys of
the collection. What holds on such a server holds on the collection.

A snapshot that is sent to its end leaves the consumer with exactly the listed filters,
whatever it held before. One that is not leaves no position, and until another is sent to its
end there is no stream.
-/

namespace FluffyCore.MongoStore

open Library.MapLoop Library.ChangeLog Library.Reachability

/-- Tracking a change keeps the live names those of the consumer. -/
theorem track_live (c : FilterCdc) (held : FiniteMap String FilterDocument)
    (live : ∀ name, name ∈ c.live ↔ name ∈ held) (change : FilterChange) (name : String) :
    name ∈ (c.track change).live ↔ name ∈ applyChange held change := by
  cases change <;> simp [FilterCdc.track, applyChange, live]

/-- Tracking a change saves no position. -/
@[simp]
theorem track_position (c : FilterCdc) (change : FilterChange) :
    (c.track change).position = c.position := by
  cases change <;> rfl

/-- Saving a position changes no live name. -/
@[simp]
theorem rememberPosition_live (c : FilterCdc) (token : Option Nat) :
    (c.rememberPosition token).live = c.live := by
  cases token <;> rfl

/-- The names of a listing are distinct. -/
theorem Listing.distinct {log : Log} {start : Nat} {docs : List FilterDocument}
    (listing : Listing log start docs) : (docs.map (·.name)).Nodup := by
  rw [List.Nodup, List.pairwise_map]
  refine listing.sorted.imp ?_
  intro first second less same
  rw [same] at less
  exact String.lt_irrefl _ less

section Snapshots

variable {held : FiniteMap String FilterDocument} {docs sent remaining : List FilterDocument}
  {doc : FilterDocument}

/-- One more listed filter is held, and the ones before still are. -/
theorem held_insert (distinct : (docs.map (·.name)).Nodup) (split : docs = sent ++ doc :: remaining)
    (before : ∀ other ∈ sent, held.lookup other.name = some other) (other : FilterDocument)
    (inside : other ∈ sent ++ [doc]) :
    (held.insert doc.name doc).lookup other.name = some other := by
  rcases List.mem_append.1 inside with earlier | isNew
  · have different : other.name ≠ doc.name := by
      rw [split, List.map_append, List.nodup_append] at distinct
      exact distinct.2.2 _ (List.mem_map_of_mem earlier) _ (by simp)
    rw [Finmap.lookup_insert_of_ne _ different, before other earlier]
  · rw [List.mem_singleton.1 isNew, Finmap.lookup_insert]

/-- Removing a name that is not listed keeps the listed filters. -/
theorem held_erase {name : String} (unlisted : name ∉ docs.map (·.name))
    (before : ∀ other ∈ docs, held.lookup other.name = some other) (other : FilterDocument)
    (inside : other ∈ docs) : (held.erase name).lookup other.name = some other := by
  have different : other.name ≠ name := fun same =>
    unlisted (same ▸ List.mem_map_of_mem inside)
  rw [Finmap.lookup_erase_ne different, before other inside]

/-- What is neither listed nor still to be removed is not held after a removal either. -/
theorem only_erase {name : String} {stale : List String}
    (only : ∀ tested ∈ held, tested ∈ docs.map (·.name) ∨ tested ∈ name :: stale)
    (tested : String) (inside : tested ∈ held.erase name) :
    tested ∈ docs.map (·.name) ∨ tested ∈ stale := by
  rw [Finmap.mem_erase] at inside
  rcases only tested inside.2 with listed | waiting
  · exact Or.inl listed
  · exact Or.inr ((List.mem_cons.1 waiting).resolve_left inside.1)

/-- After the upserts, a name that is held is listed or stale. -/
theorem only_stale {live : Finset String} (same : ∀ name, name ∈ live ↔ name ∈ held)
    {stale : List String} (names : StaleNames live docs stale) (name : String)
    (inside : name ∈ held) : name ∈ docs.map (·.name) ∨ name ∈ stale := by
  by_cases listed : name ∈ docs.map (·.name)
  · exact Or.inl listed
  · exact Or.inr ((names.2 name).2 ⟨(same name).2 inside, listed⟩)

end Snapshots

/-- What holds while a snapshot is taken. -/
def SnapshotBooks (w : World) : Phase → Prop
  | .listing _ _ => w.cdc.position = none
  | .upserting _ docs remaining => w.cdc.position = none ∧ (docs.map (·.name)).Nodup ∧
      ∃ sent, docs = sent ++ remaining ∧ ∀ doc ∈ sent, w.consumer.lookup doc.name = some doc
  | .removing _ docs remaining => w.cdc.position = none ∧
      (∀ doc ∈ docs, w.consumer.lookup doc.name = some doc) ∧
      (∀ name ∈ w.consumer, name ∈ docs.map (·.name) ∨ name ∈ remaining) ∧
      ∀ name ∈ remaining, name ∉ docs.map (·.name)
  | _ => True

/-- The books of a `FilterCDC`. -/
structure Books (w : World) : Prop where
  live : ∀ name, name ∈ w.cdc.live ↔ name ∈ w.consumer
  snapshot : SnapshotBooks w w.phase

/-- A new `FilterCDC` has reported nothing and its consumer holds nothing. -/
theorem initial_books (w : World) (initial : Initial w) : Books w := by
  obtain ⟨log, _, rfl⟩ := initial
  exact ⟨by simp [World.consumer, Finmap.notMem_empty], trivial⟩

/-- A send and its tracking keep the live names those of the consumer. -/
theorem Books.send {w : World} (books : Books w) (change : FilterChange) (source : Source)
    (name : String) :
    name ∈ (w.cdc.track change).live ↔ name ∈ (w.send change source).consumer := by
  rw [consumer_send]
  exact track_live w.cdc w.consumer books.live change name

/-- Saving a position keeps the live names those of the consumer. -/
theorem Books.rememberPosition {w : World} (books : Books w) (token : Option Nat) (name : String) :
    name ∈ (w.cdc.rememberPosition token).live ↔ name ∈ w.consumer := by
  rw [rememberPosition_live]
  exact books.live name

/-- Writers and cancellation concern no books. -/
theorem SnapshotBooks.frame {w w' : World} (held : w'.consumer = w.consumer)
    (position : w'.cdc.position = w.cdc.position) {phase : Phase} (books : SnapshotBooks w phase) :
    SnapshotBooks w' phase := by
  cases phase <;> simp only [SnapshotBooks, held, position] at books ⊢ <;> exact books

/-- A step keeps the books, whatever the server returns. -/
theorem step_books (w w' : World) (books : Books w) (step : FreeStep w w') : Books w' := by
  have snapshot := books.snapshot
  cases step with
  | write log written => exact ⟨books.live, snapshot.frame rfl rfl⟩
  | cancel => exact ⟨books.live, snapshot.frame rfl rfl⟩
  | run cancelled idle => exact ⟨books.live, trivial⟩
  | resume position starting saved => exact ⟨books.live, trivial⟩
  | pin pin start starting unsaved pinned => exact ⟨books.live, unsaved⟩
  | list pin start docs listing distinct =>
    rw [listing] at snapshot
    exact ⟨books.live, snapshot, distinct, [], rfl, by simp⟩
  | sendUpsert pin docs remaining doc upserting =>
    rw [upserting] at snapshot
    obtain ⟨unsaved, distinct, sent, split, held⟩ := snapshot
    refine ⟨books.send (.upsert doc.name doc) .snapshot, unsaved, distinct, sent ++ [doc],
      by simp [split], ?_⟩
    intro other inside
    change (w.send (.upsert doc.name doc) .snapshot).consumer.lookup other.name = _
    rw [consumer_send]
    exact held_insert distinct split held other inside
  | stale pin docs stale upserted names =>
    rw [upserted] at snapshot
    obtain ⟨unsaved, _, sent, split, held⟩ := snapshot
    rw [List.append_nil] at split
    subst split
    exact ⟨books.live, unsaved, held, only_stale books.live names,
      fun name waiting => ((names.2 name).1 waiting).2⟩
  | sendRemoval pin docs name remaining removing =>
    rw [removing] at snapshot
    obtain ⟨unsaved, held, only, stale⟩ := snapshot
    refine ⟨books.send (.delete name) .snapshot, unsaved, ?_, ?_,
      fun tested waiting => stale tested (List.mem_cons_of_mem _ waiting)⟩
    · intro other inside
      change (w.send (.delete name) .snapshot).consumer.lookup other.name = _
      rw [consumer_send]
      exact held_erase (stale name List.mem_cons_self) held other inside
    · intro tested inside
      change tested ∈ (w.send (.delete name) .snapshot).consumer at inside
      rw [consumer_send] at inside
      exact only_erase only tested inside
  | snapshotted pin docs removed => exact ⟨books.live, trivial⟩
  | watch position token opening bounded =>
    exact ⟨books.rememberPosition token, trivial⟩
  | announce position announcing => exact ⟨books.send .ready .announcement, trivial⟩
  | next position raw change tailing event decoded => exact ⟨books.live, trivial⟩
  | ignore position raw token tailing event decoded bounded =>
    exact ⟨books.rememberPosition token, trivial⟩
  | skip position raw message token tailing event undecodable bounded =>
    exact ⟨books.rememberPosition token, trivial⟩
  | deliver position change token sending bounded =>
    refine ⟨fun name => ?_, trivial⟩
    rw [rememberPosition_live]
    exact books.send change (.event position) name
  | abort sends cancelled => exact ⟨books.live, trivial⟩
  | fail err calls =>
    unfold World.fail
    split
    · exact ⟨books.live, trivial⟩
    · exact ⟨books.live, trivial⟩
  | invalidated position tailing dropped running => exact ⟨books.live, trivial⟩
  | invalidatedCancelled position tailing dropped cancelled => exact ⟨books.live, trivial⟩

/-- The books are kept in every history. -/
theorem reachable_books (w : World) (reached : Reachable Initial FreeStep w) : Books w :=
  reached.invariant Books initial_books fun before after _ books step =>
    step_books before after books step

/-- The phases of `snapshot`. -/
def Phase.Snapshotting : Phase → Prop
  | .listing _ _ => True
  | .upserting _ _ _ => True
  | .removing _ _ _ => True
  | _ => False

/-- There is no position, and no stream is open or about to be opened. -/
structure Unpositioned (w : World) : Prop where
  unsaved : w.cdc.position = none
  phase : w.phase = .idle ∨ w.phase = .starting ∨ w.phase.Snapshotting

/-- Without a position nothing but a snapshot that is sent to its end leads to a stream. -/
theorem Unpositioned.step {w w' : World} (before : Unpositioned w) (step : FreeStep w w') :
    (w'.snapshots = w.snapshots ∧ Unpositioned w') ∨
      w'.snapshots.length = w.snapshots.length + 1 := by
  have unsaved := before.unsaved
  have phase := before.phase
  cases step with
  | write log written => exact Or.inl ⟨rfl, unsaved, phase⟩
  | cancel => exact Or.inl ⟨rfl, unsaved, phase⟩
  | run cancelled idle => exact Or.inl ⟨rfl, unsaved, Or.inr (Or.inl rfl)⟩
  | resume position starting saved =>
    rw [unsaved] at saved
    cases saved
  | pin pin start starting _ pinned => exact Or.inl ⟨rfl, unsaved, Or.inr (Or.inr trivial)⟩
  | list pin start docs listing distinct =>
    exact Or.inl ⟨rfl, unsaved, Or.inr (Or.inr trivial)⟩
  | sendUpsert pin docs remaining doc upserting =>
    exact Or.inl ⟨rfl, unsaved, Or.inr (Or.inr trivial)⟩
  | stale pin docs stale upserted names =>
    exact Or.inl ⟨rfl, unsaved, Or.inr (Or.inr trivial)⟩
  | sendRemoval pin docs name remaining removing =>
    exact Or.inl ⟨rfl, unsaved, Or.inr (Or.inr trivial)⟩
  | snapshotted pin docs removed => exact Or.inr (by simp)
  | watch position token opening bounded => simp [opening, Phase.Snapshotting] at phase
  | announce position announcing => simp [announcing, Phase.Snapshotting] at phase
  | next position raw change tailing event decoded => simp [tailing, Phase.Snapshotting] at phase
  | ignore position raw token tailing event decoded bounded =>
    simp [tailing, Phase.Snapshotting] at phase
  | skip position raw message token tailing event undecodable bounded =>
    simp [tailing, Phase.Snapshotting] at phase
  | deliver position change token sending bounded => simp [sending, Phase.Snapshotting] at phase
  | abort sends cancelled => exact Or.inl ⟨rfl, unsaved, Or.inl rfl⟩
  | fail err calls =>
    unfold World.fail
    split
    · exact Or.inl ⟨rfl, rfl, Or.inr (Or.inl rfl)⟩
    · exact Or.inl ⟨rfl, unsaved, Or.inl rfl⟩
  | invalidated position tailing dropped running => simp [tailing, Phase.Snapshotting] at phase
  | invalidatedCancelled position tailing dropped cancelled =>
    simp [tailing, Phase.Snapshotting] at phase

/-- Completed snapshots are not forgotten. -/
theorem snapshots_length_le {w w' : World} (step : FreeStep w w') :
    w.snapshots.length ≤ w'.snapshots.length := by
  cases step with
  | snapshotted pin docs removed => simp
  | fail err calls =>
    unfold World.fail
    split
    · exact Nat.le_refl _
    · exact Nat.le_refl _
  | _ => exact Nat.le_refl _

/-- Until a snapshot is sent to its end there is no position. -/
theorem Unpositioned.run {w w' : World} (before : Unpositioned w)
    (path : Relation.ReflTransGen FreeStep w w') :
    (w'.snapshots = w.snapshots ∧ Unpositioned w') ∨
      w.snapshots.length < w'.snapshots.length := by
  induction path with
  | refl => exact Or.inl ⟨rfl, before⟩
  | tail _ taken inductionHypothesis =>
    rcases inductionHypothesis with ⟨same, unpositioned⟩ | more
    · rcases unpositioned.step taken with ⟨kept, next⟩ | completed
      · exact Or.inl ⟨kept.trans same, next⟩
      · rw [same] at completed
        exact Or.inr (by omega)
    · exact Or.inr (Nat.lt_of_lt_of_le more (snapshots_length_le taken))

/-- Whatever one server does, the other may do as well. -/
structure Server.Within (server other : Server) : Prop where
  writes : ∀ log after, server.writes log after → other.writes log after
  pins : ∀ log pin start, server.pins log pin start → other.pins log pin start
  lists : ∀ log start docs, server.lists log start docs → other.lists log start docs
  tokens : ∀ position token, server.tokens position token → other.tokens position token
  reports : ∀ log position raw, server.reports log position raw → other.reports log position raw
  drops : ∀ log position, server.drops log position → other.drops log position

/-- A step that rests on fewer guarantees is a step as well. -/
theorem CdcStep.mono {server other : Server} (within : server.Within other) {w w' : World}
    (step : CdcStep server w w') : CdcStep other w w' := by
  cases step with
  | write log written => exact .write w log (within.writes _ _ written)
  | cancel => exact .cancel w
  | run cancelled idle => exact .run w cancelled idle
  | resume position starting saved => exact .resume w position starting saved
  | pin pin start starting unsaved pinned =>
    exact .pin w pin start starting unsaved (within.pins _ _ _ pinned)
  | list pin start docs listing listed =>
    exact .list w pin start docs listing (within.lists _ _ _ listed)
  | sendUpsert pin docs remaining doc upserting =>
    exact .sendUpsert w pin docs remaining doc upserting
  | stale pin docs stale upserted names => exact .stale w pin docs stale upserted names
  | sendRemoval pin docs name remaining removing =>
    exact .sendRemoval w pin docs name remaining removing
  | snapshotted pin docs removed => exact .snapshotted w pin docs removed
  | watch position token opening bounded =>
    exact .watch w position token opening (within.tokens _ _ bounded)
  | announce position announcing => exact .announce w position announcing
  | next position raw change tailing event decoded =>
    exact .next w position raw change tailing (within.reports _ _ _ event) decoded
  | ignore position raw token tailing event decoded bounded =>
    exact .ignore w position raw token tailing (within.reports _ _ _ event) decoded
      (within.tokens _ _ bounded)
  | skip position raw message token tailing event undecodable bounded =>
    exact .skip w position raw message token tailing (within.reports _ _ _ event) undecodable
      (within.tokens _ _ bounded)
  | deliver position change token sending bounded =>
    exact .deliver w position change token sending (within.tokens _ _ bounded)
  | abort sends cancelled => exact .abort w sends cancelled
  | fail err calls => exact .fail w err calls
  | invalidated position tailing dropped running =>
    exact .invalidated w position tailing (within.drops _ _ dropped) running
  | invalidatedCancelled position tailing dropped cancelled =>
    exact .invalidatedCancelled w position tailing (within.drops _ _ dropped) cancelled

/-- The collection lists no name twice. -/
theorem collection_within : collection.Within anyServer where
  writes _ _ _ := trivial
  pins _ _ _ _ := trivial
  lists _ _ _ listed := listed.distinct
  tokens _ _ _ := trivial
  reports _ _ _ _ := trivial
  drops _ _ _ := trivial

/-- What a `FilterCDC` can reach on its collection it can reach on a free server. -/
theorem reachable_free {w : World} (reached : Reachable Initial Step w) :
    Reachable Initial FreeStep w := by
  induction reached with
  | start begins => exact .start begins
  | next _ taken inductionHypothesis =>
    exact inductionHypothesis.next (taken.mono collection_within)

/-- **CDC bookkeeping is exact.** In every history of runs on one `FilterCDC`, the live names
are the names its consumer holds. When `snapshot` returns nil the consumer holds exactly the
documents of its listing, and the live names are theirs. A snapshot that is cancelled or fails
leaves no position, and no stream is opened until another snapshot has been sent to its end. -/
theorem cdc_bookkeeping_exact (w : World) (reached : Reachable Initial FreeStep w) :
    w.cdc.live = w.consumer.keys ∧
    (∀ pin docs, w.phase = .removing pin docs [] →
      (∀ name doc, w.consumer.lookup name = some doc ↔ doc ∈ docs ∧ doc.name = name) ∧
      w.cdc.live = (docs.map (·.name)).toFinset) ∧
    (w.phase.Snapshotting → ∀ w', FreeStep w w' → w'.phase = .idle ∨ w'.phase = .starting →
      w'.cdc.resumeToken = none ∧ w'.cdc.resumeTime = none ∧
      ∀ later, Relation.ReflTransGen FreeStep w' later → later.snapshots = w'.snapshots →
        later.cdc.position = none ∧
        (later.phase = .idle ∨ later.phase = .starting ∨ later.phase.Snapshotting)) := by
  have books := reachable_books w reached
  refine ⟨?_, ?_, ?_⟩
  · ext name
    rw [Finmap.mem_keys]
    exact books.live name
  · intro pin docs finished
    have snapshot := books.snapshot
    rw [finished] at snapshot
    obtain ⟨_, held, only, _⟩ := snapshot
    have listed : ∀ name ∈ w.consumer, name ∈ docs.map (·.name) := fun name inside =>
      (only name inside).resolve_right List.not_mem_nil
    have documents : ∀ name doc, w.consumer.lookup name = some doc ↔
        doc ∈ docs ∧ doc.name = name := by
      intro name doc
      constructor
      · intro found
        obtain ⟨other, inside, rfl⟩ :=
          List.mem_map.1 (listed name (Finmap.mem_of_lookup_eq_some found))
        obtain rfl := Option.some.inj ((held other inside).symm.trans found)
        exact ⟨inside, rfl⟩
      · rintro ⟨inside, rfl⟩
        exact held doc inside
    refine ⟨documents, ?_⟩
    ext name
    rw [books.live, List.mem_toFinset]
    refine ⟨listed name, fun inside => ?_⟩
    obtain ⟨doc, member, rfl⟩ := List.mem_map.1 inside
    exact Finmap.mem_of_lookup_eq_some (held doc member)
  · intro snapshotting w' step left
    have unsaved : w.cdc.position = none := by
      have snapshot := books.snapshot
      cases phase : w.phase <;> rw [phase] at snapshot snapshotting
      case listing => exact snapshot
      case upserting => exact snapshot.1
      case removing => exact snapshot.1
      all_goals exact snapshotting.elim
    have before : Unpositioned w := ⟨unsaved, Or.inr (Or.inr snapshotting)⟩
    have after : Unpositioned w' := by
      rcases before.step step with ⟨_, unpositioned⟩ | completed
      · exact unpositioned
      · -- Only the end of a snapshot completes one, and it goes on to open the stream.
        exfalso
        cases step with
        | snapshotted pin docs removed => simp at left
        | fail err calls =>
          unfold World.fail at completed
          split at completed <;> simp at completed
        | _ => simp [World.send] at completed
    obtain ⟨noToken, noTime⟩ := Option.or_eq_none_iff.1 after.unsaved
    refine ⟨noToken, noTime, ?_⟩
    intro later path same
    rcases after.run path with ⟨_, unpositioned⟩ | more
    · exact ⟨unpositioned.unsaved, unpositioned.phase⟩
    · rw [same] at more
      exact absurd more (Nat.lt_irrefl _)

/-- A filter of a name, as a listing returns it. -/
def listedFilter (name : String) : FilterDocument := ⟨name, "hint", ∅, "EXISTS type", 1, 1, none⟩

/-- A snapshot is cancelled after one of two filters. The next lists another filter only. -/
theorem cdc_bookkeeping_exact_cancelled :
    ∃ w : World, Reachable Initial FreeStep w ∧
      w.phase = .removing 2 [listedFilter "c"] [] ∧ w.delivered.length = 3 ∧
      w.cdc.live = w.consumer.keys ∧
      (∀ name doc, w.consumer.lookup name = some doc ↔
        doc ∈ [listedFilter "c"] ∧ doc.name = name) ∧
      w.cdc.live = {"c"} := by
  let a := listedFilter "a"
  let b := listedFilter "b"
  let c := listedFilter "c"
  let sentFirst : Delivery := ⟨.upsert "a" a, .snapshot⟩
  let sentSecond : Delivery := ⟨.upsert "c" c, .snapshot⟩
  have firstNames : ([a, b].map (·.name)).Nodup := by decide
  have secondNames : ([c].map (·.name)).Nodup := by decide
  have listed : Reachable Initial FreeStep { phase := .upserting 1 [a, b] [a, b] } :=
    ((Reachable.start ⟨[], by simp [Keyed], rfl⟩).next (.run _ false rfl)).next
      (.pin _ 1 1 rfl rfl trivial) |>.next (.list _ 1 1 [a, b] rfl firstNames)
  have cancelled : Reachable Initial FreeStep
      { cdc := { live := {"a"} }, delivered := [sentFirst], cancelled := true
        phase := .idle } :=
    ((listed.next (.sendUpsert _ 1 [a, b] [b] a rfl)).next (.cancel _)).next
      (.abort _ (List.cons_ne_nil b []) rfl)
  have relisted : Reachable Initial FreeStep
      { cdc := { live := {"a"} }, delivered := [sentFirst], phase := .upserting 2 [c] [c] } :=
    ((cancelled.next (.run _ false rfl)).next (.pin _ 2 2 rfl rfl trivial)).next
      (.list _ 2 2 [c] rfl secondNames)
  have upserted : Reachable Initial FreeStep
      { cdc := { live := {"c", "a"} }, delivered := [sentFirst, sentSecond]
        phase := .upserting 2 [c] [] } :=
    relisted.next (.sendUpsert _ 2 [c] [] c rfl)
  have names : StaleNames {"c", "a"} [c] ["a"] := by
    refine ⟨List.nodup_singleton _, fun name => ?_⟩
    have cName : c.name = "c" := rfl
    simp only [List.mem_singleton, Finset.mem_insert, Finset.mem_singleton, List.map_cons,
      List.map_nil, cName]
    constructor
    · rintro rfl
      exact ⟨Or.inr rfl, by decide⟩
    · rintro ⟨rfl | rfl, other⟩
      · exact absurd rfl other
      · rfl
  have removed := (upserted.next (.stale _ 2 [c] ["a"] rfl names)).next
    (.sendRemoval _ 2 [c] "a" [] rfl)
  obtain ⟨live, finished, _⟩ := cdc_bookkeeping_exact _ removed
  obtain ⟨documents, names⟩ := finished 2 [c] rfl
  exact ⟨_, removed, rfl, rfl, live, documents, names⟩

end FluffyCore.MongoStore
