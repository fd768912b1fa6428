import FluffyCore.MongoStore.Bookkeeping

/-!
# The followed copy converges

The saved position of a `FilterCDC` and the position of its open stream are safe at
every step of every run. What a snapshot has sent is in the books, which are kept on
every server. To them the collection adds when its listing was read: a snapshot that
was sent to the end leaves the consumer with exactly the listed filters, and that makes
its pin safe, since the listing was read after the pin.
-/

namespace FluffyCore.MongoStore

open Library.MapLoop Library.ChangeLog Library.Reachability

/-- A listing that began after a prefix also began after a shorter one, and ended
before any later moment. -/
theorem Listing.mono {log : Log} {start : Nat} {docs : List FilterDocument}
    (listing : Listing log start docs) (earlier : Nat) (before : earlier ≤ start)
    (suffix : Log) : Listing (log ++ suffix) earlier docs := by
  refine ⟨listing.sorted, fun name => ?_⟩
  obtain ⟨moment, began, ended, read⟩ := listing.read name
  refine ⟨moment, by omega, by rw [List.length_append]; omega, ?_⟩
  rwa [List.take_append_of_le_length ended]

/-- A consumer that holds exactly the listed filters is right for every filter
untouched since the listing began. -/
theorem Listing.covered {log : Log} {start : Nat} {docs : List FilterDocument}
    (listing : Listing log start docs) (held : FiniteMap String FilterDocument)
    (sent : ∀ doc ∈ docs, held.lookup doc.name = some doc)
    (only : ∀ name ∈ held, name ∈ docs.map (·.name)) : Covered log held start := by
  intro name untouched
  obtain ⟨moment, began, _, read⟩ := listing.read name
  have current : active (log.take moment) name = active log name := by
    rw [active, active, contents_take_of_untouched log start moment name untouched began]
  rw [← current]
  cases found : active (log.take moment) name with
  | some doc =>
    obtain ⟨inside, rfl⟩ := (read doc).2 found
    exact sent doc inside
  | none =>
    rw [Finmap.lookup_eq_none]
    intro inside
    obtain ⟨doc, listed, named⟩ := List.mem_map.1 (only name inside)
    have present := (read doc).1 ⟨listed, named⟩
    rw [found] at present
    cases present

/-- What holds of an attempt that reads from the stream. -/
structure Streaming (w : World) (position : Nat) : Prop where
  safe : Safe w position
  saved : ∀ q, w.cdc.position = some q → q ≤ position

/-- What holds in each phase of a run on the collection, besides the books. -/
def PhaseInvariant (w : World) : Phase → Prop
  | .idle => True
  | .starting => True
  | .listing pin start => pin ≤ start ∧ start ≤ w.log.length
  | .upserting pin docs _ => pin ≤ w.log.length ∧ Listing w.log pin docs
  | .removing pin docs _ => pin ≤ w.log.length ∧ Listing w.log pin docs
  | .opening position => Streaming w position
  | .announcing position => Streaming w position
  | .tailing position => Streaming w position
  | .sending position change => Streaming w position ∧ ∃ raw,
      collection.reports w.log position raw ∧ decodeEvent raw = .ok (some change)

/-- What holds at every step of a run on the collection, besides the books. -/
structure Invariant (w : World) : Prop where
  keyed : Keyed w.log
  saved : ∀ q, w.cdc.position = some q → Safe w q
  phase : PhaseInvariant w w.phase

/-- A new `FilterCDC` has saved nothing. -/
theorem initial_invariant (w : World) (initial : Initial w) : Invariant w := by
  obtain ⟨log, keyed, rfl⟩ := initial
  exact ⟨keyed, nofun, trivial⟩

/-- After a token was offered the saved position is the old one or the token's, so what
holds of both holds of it. -/
theorem rememberPosition_saved {c : FilterCdc} {position : Nat} {token : Option Nat}
    (bounded : TokenAt position token) {property : Nat → Prop}
    (before : ∀ q, c.position = some q → property q) (here : property position) (q : Nat)
    (saved : (c.rememberPosition token).position = some q) : property q := by
  rcases bounded with rfl | rfl
  · exact before q saved
  · have same : q = position := by
      simpa [FilterCdc.rememberPosition, FilterCdc.position] using saved.symm
    rwa [same]

/-- A step that leaves the collection and the consumer alone, and saves no position that
was not safe, has only its phase to answer for. -/
theorem Invariant.frame {w w' : World} (inv : Invariant w) (extended : Extends w w')
    (log : w'.log = w.log) (held : w'.consumer = w.consumer)
    (saved : ∀ q, w'.cdc.position = some q → Safe w q) (phase : PhaseInvariant w' w'.phase) :
    Invariant w' where
  keyed := log ▸ inv.keyed
  saved q isSaved := (saved q isSaved).frame extended log held
  phase := phase

/-- Reading on from a stream after such a step. -/
theorem Streaming.frame {w w' : World} {position : Nat} (streaming : Streaming w position)
    (extended : Extends w w') (log : w'.log = w.log) (held : w'.consumer = w.consumer)
    (saved : ∀ q, w'.cdc.position = some q → q ≤ position) : Streaming w' position :=
  ⟨streaming.safe.frame extended log held, saved⟩

/-- A write changes no phase's view: listings and stream positions keep their meaning. -/
theorem write_invariant (w : World) (inv : Invariant w) (write : StoreWrite)
    (named : ∀ name, write.name = some name → name ≠ "") :
    Invariant { w with log := write.apply w.log } := by
  obtain ⟨_, keyed⟩ := write_spec write w.log inv.keyed named
  have extended := step_extends w _ (.write w _ ⟨write, named, rfl⟩) inv.keyed
  obtain ⟨suffix, logged⟩ := extended.log
  simp only at logged
  have longer : w.log.length ≤ (write.apply w.log).length := by
    rw [logged, List.length_append]
    omega
  have streaming : ∀ position, Streaming w position →
      Streaming { w with log := write.apply w.log } position := fun position before =>
    ⟨before.safe.write write inv.keyed named, before.saved⟩
  have listings : ∀ pin docs, pin ≤ w.log.length ∧ Listing w.log pin docs →
      pin ≤ (write.apply w.log).length ∧ Listing (write.apply w.log) pin docs := by
    rintro pin docs ⟨past, listing⟩
    refine ⟨past.trans longer, ?_⟩
    rw [logged]
    exact listing.mono pin (Nat.le_refl _) suffix
  refine ⟨keyed, fun q saved => (inv.saved q saved).write write inv.keyed named, ?_⟩
  have phases : ∀ phase, PhaseInvariant w phase →
      PhaseInvariant { w with log := write.apply w.log } phase := by
    intro phase
    cases phase with
    | idle => exact id
    | starting => exact id
    | listing pin start => exact fun ⟨order, past⟩ => ⟨order, past.trans longer⟩
    | upserting pin docs remaining => exact listings pin docs
    | removing pin docs remaining => exact listings pin docs
    | opening position => exact streaming position
    | announcing position => exact streaming position
    | tailing position => exact streaming position
    | sending position change =>
      rintro ⟨before, raw, ⟨moment, later, past, event⟩, decoded⟩
      refine ⟨streaming position before, raw, ⟨moment, later, past.trans longer, ?_⟩, decoded⟩
      simp only [logged]
      rw [changeEvent_append _ _ _ _ later past, event]
  exact phases w.phase inv.phase

/-- Cancelling the context changes what may happen next, not what holds now. -/
theorem cancel_invariant (w : World) (inv : Invariant w) :
    Invariant { w with cancelled := true } := by
  have extended := step_extends w _ (.cancel w) inv.keyed
  have streaming : ∀ position, Streaming w position →
      Streaming { w with cancelled := true } position := fun position before =>
    before.frame extended rfl rfl before.saved
  have phases : ∀ phase, PhaseInvariant w phase →
      PhaseInvariant { w with cancelled := true } phase := by
    intro phase
    cases phase with
    | opening position => exact streaming position
    | announcing position => exact streaming position
    | tailing position => exact streaming position
    | sending position change => exact fun ⟨before, event⟩ => ⟨streaming position before, event⟩
    | _ => exact id
  exact inv.frame extended rfl rfl inv.saved (phases w.phase inv.phase)

/-- A change of a snapshot is sent while no position is saved, so only the listing has to be
kept, and a send does not concern it. -/
theorem Invariant.sendSnapshot {w w' : World} (inv : Invariant w) (log : w'.log = w.log)
    (unsaved : w'.cdc.position = none) (phase : PhaseInvariant w' w'.phase) : Invariant w' where
  keyed := log ▸ inv.keyed
  saved q saved := by
    rw [unsaved] at saved
    cases saved
  phase := phase

/-- A snapshot sent to the end makes its pin a safe position. -/
theorem snapshotted_invariant (w : World) (books : Books w) (inv : Invariant w) (pin : Nat)
    (docs : List FilterDocument) (removed : w.phase = .removing pin docs []) :
    Invariant { w with
      cdc := { w.cdc with resumeTime := some pin }, snapshots := w.snapshots ++ [pin],
      phase := .opening pin } := by
  have extended := step_extends w _ (.snapshotted w pin docs removed) inv.keyed
  have snapshot := books.snapshot
  have phase := inv.phase
  rw [removed] at snapshot phase
  obtain ⟨unsaved, held, only, _⟩ := snapshot
  obtain ⟨past, listing⟩ := phase
  have listedOnly : ∀ name ∈ w.consumer, name ∈ docs.map (·.name) := fun name inside =>
    (only name inside).resolve_right (List.not_mem_nil)
  have safe : Safe { w with
      cdc := { w.cdc with resumeTime := some pin }, snapshots := w.snapshots ++ [pin],
      phase := .opening pin } pin :=
    ⟨past, listing.covered w.consumer held listedOnly,
      fun i before => Or.inl ⟨pin, by simp, before⟩⟩
  have noToken : w.cdc.resumeToken = none := (Option.or_eq_none_iff.1 unsaved).1
  have atPin : ∀ q, FilterCdc.position { w.cdc with resumeTime := some pin } = some q →
      q = pin := by
    intro q saved
    simpa [FilterCdc.position, noToken] using saved.symm
  refine ⟨inv.keyed, ?_, safe, fun q saved => (atPin q saved).le⟩
  intro q saved
  rw [atPin q saved]
  exact safe

/-- Delivering a decoded event moves the stream past it. -/
theorem deliver_invariant (w : World) (inv : Invariant w) (position : Nat)
    (change : FilterChange) (token : Option Nat) (sending : w.phase = .sending position change)
    (bounded : TokenAt (position + 1) token) :
    Invariant { w.send change (.event position) with
      cdc := (w.cdc.track change).rememberPosition token, phase := .tailing (position + 1) } := by
  have extended := step_extends w _ (.deliver w position change token sending bounded) inv.keyed
  have phase := inv.phase
  rw [sending] at phase
  obtain ⟨streaming, raw, ⟨moment, later, past, event⟩, decoded⟩ := phase
  have consumer := consumer_send w change (.event position)
  obtain ⟨earlier, here⟩ := Safe.deliver inv.keyed extended rfl consumer (by simp [World.send])
    later past event decoded
  have safe := here streaming.safe
  refine ⟨inv.keyed, ?_, safe, ?_⟩
  · refine rememberPosition_saved bounded (fun q saved => ?_) safe
    rw [track_position] at saved
    exact earlier q (streaming.saved q saved) (inv.saved q saved)
  · refine rememberPosition_saved bounded (fun q saved => ?_) (Nat.le_refl _)
    rw [track_position] at saved
    exact (streaming.saved q saved).trans (Nat.le_succ _)

/-- Giving up an attempt keeps what is saved or forgets it. -/
theorem fail_invariant (w : World) (inv : Invariant w) (err : DbError) (calls : w.Calls) :
    Invariant (w.fail err) := by
  have extended := step_extends w _ (.fail w err calls) inv.keyed
  unfold World.fail at extended ⊢
  split
  · next lost =>
    rw [if_pos lost] at extended
    exact inv.frame extended rfl rfl nofun trivial
  · next kept =>
    rw [if_neg kept] at extended
    exact inv.frame extended rfl rfl inv.saved trivial

/-- A step on the collection keeps what holds there, as long as the books are kept. -/
theorem step_invariant (w w' : World) (books : Books w) (inv : Invariant w) (step : Step w w') :
    Invariant w' := by
  have extended := step_extends w w' step inv.keyed
  have snapshot := books.snapshot
  have phase := inv.phase
  cases step with
  | write log written =>
    obtain ⟨write, named, rfl⟩ := written
    exact write_invariant w inv write named
  | cancel => exact cancel_invariant w inv
  | run cancelled idle => exact inv.frame extended rfl rfl inv.saved trivial
  | resume position starting saved =>
    refine inv.frame extended rfl rfl inv.saved ?_
    refine ⟨(inv.saved position saved).frame extended rfl rfl, fun q isSaved => ?_⟩
    exact (Option.some.inj (isSaved.symm.trans saved)).le
  | pin pin start starting unsaved pinned =>
    obtain ⟨past, rfl⟩ := pinned
    exact inv.frame extended rfl rfl inv.saved ⟨past, Nat.le_refl _⟩
  | list pin start docs listing listed =>
    rw [listing] at phase
    obtain ⟨order, past⟩ := phase
    have fromPin := Listing.mono listed pin order []
    rw [List.append_nil] at fromPin
    exact inv.frame extended rfl rfl inv.saved ⟨order.trans past, fromPin⟩
  | sendUpsert pin docs remaining doc upserting =>
    rw [upserting] at snapshot phase
    exact inv.sendSnapshot rfl ((track_position _ _).trans snapshot.1) phase
  | stale pin docs stale upserted names =>
    rw [upserted] at phase
    exact inv.frame extended rfl rfl inv.saved phase
  | sendRemoval pin docs name remaining removing =>
    rw [removing] at snapshot phase
    exact inv.sendSnapshot rfl ((track_position _ _).trans snapshot.1) phase
  | snapshotted pin docs removed => exact snapshotted_invariant w books inv pin docs removed
  | watch position token opening bounded =>
    rw [opening] at phase
    refine inv.frame extended rfl rfl ?_ (phase.frame extended rfl rfl ?_)
    · exact rememberPosition_saved bounded inv.saved phase.safe
    · exact rememberPosition_saved bounded phase.saved (Nat.le_refl _)
  | announce position announcing =>
    rw [announcing] at phase
    have consumer := consumer_send w .ready .announcement
    exact inv.frame extended rfl consumer inv.saved
      (phase.frame extended rfl consumer phase.saved)
  | next position raw change tailing event decoded =>
    rw [tailing] at phase
    exact inv.frame extended rfl rfl inv.saved
      ⟨phase.frame extended rfl rfl phase.saved, raw, event, decoded⟩
  | ignore position raw token tailing event decoded bounded =>
    obtain ⟨moment, later, past, event⟩ := event
    exact absurd decoded (decodeEvent_ne_none w.log position moment raw later event)
  | skip position raw message token tailing event undecodable bounded =>
    rw [tailing] at phase
    obtain ⟨moment, later, past, event⟩ := event
    have safe := phase.safe.skip inv.keyed extended rfl rfl (by simp) later past event undecodable
    refine ⟨inv.keyed, ?_, safe, ?_⟩
    · exact rememberPosition_saved bounded
        (fun q saved => (inv.saved q saved).frame extended rfl rfl) safe
    · exact rememberPosition_saved bounded
        (fun q saved => (phase.saved q saved).trans (Nat.le_succ _)) (Nat.le_refl _)
  | deliver position change token sending bounded =>
    exact deliver_invariant w inv position change token sending bounded
  | abort sends cancelled => exact inv.frame extended rfl rfl inv.saved trivial
  | fail err calls => exact fail_invariant w inv err calls
  | invalidated position tailing dropped running =>
    exact inv.frame extended rfl rfl nofun trivial
  | invalidatedCancelled position tailing dropped cancelled =>
    exact inv.frame extended rfl rfl inv.saved trivial

/-- What holds on the collection holds in every history. The books are those of a free
server. -/
theorem reachable_invariant (w : World) (reached : Reachable Initial Step w) : Invariant w :=
  reached.invariant Invariant initial_invariant fun before after reachable inv step =>
    step_invariant before after (reachable_books before (reachable_free reachable)) inv step

/-- The stream at a position has reported everything there is to report. -/
theorem streaming_of_position (w : World) (inv : Invariant w) (position : Nat)
    (stream : w.streamPosition = some position) : Streaming w position := by
  have phase := inv.phase
  unfold World.streamPosition at stream
  split at stream <;> simp only [Option.some.injEq, reduceCtorEq] at stream
  · next at_ => rw [at_, stream] at phase; exact phase
  · next at_ => rw [at_, stream] at phase; exact phase
  · next at_ => rw [at_, stream] at phase; exact phase.1

/-- The followed copy converges. In every state that writers and any number of runs
can reach: when a stream is open and neither a drop nor an undelivered event lies
ahead of it, the consumer holds exactly the active documents of the collection. And
a saved position never lies after an event that is not accounted for; from there on
the stream makes up for whatever the consumer does not have yet. -/
theorem cdc_converges (w : World) (reached : Reachable Initial Step w) :
    (∀ position, w.streamPosition = some position →
      (∀ i key document, position ≤ i → w.log[i]? ≠ some (.put key document)) →
      (∀ i, position ≤ i → w.log[i]? ≠ some .drop) →
      ∀ name, w.consumer.lookup name = active w.log name) ∧
    (∀ position, w.cdc.position = some position →
      (∀ i < position, w.Accounted i) ∧ Covered w.log w.consumer position) := by
  have inv := reachable_invariant w reached
  refine ⟨?_, fun position saved => ⟨(inv.saved position saved).accounted,
    (inv.saved position saved).covered⟩⟩
  intro position stream noEvent noDrop name
  have atEnd : w.log.length ≤ position := by
    by_contra inside
    have present := List.getElem?_eq_getElem (Nat.lt_of_not_le inside)
    cases entry : w.log[position] with
    | put key document =>
      exact noEvent position key document (Nat.le_refl _) (by rw [present, entry])
    | drop => exact noDrop position (Nat.le_refl _) (by rw [present, entry])
  exact (streaming_of_position w inv position stream).safe.covered.at_end atEnd name

/-- One filter as the store keeps it. -/
def sampleFilter (name : String) (now : Int) : FilterDocument :=
  ⟨name, "hint", ∅, "EXISTS type", now, now, none⟩

/-- The listing of a collection with one filter. -/
theorem sampleListing :
    Listing [.put "a" (some (sampleFilter "a" 1))] 1 [sampleFilter "a" 1] := by
  refine ⟨by simp, fun name => ⟨1, Nat.le_refl _, Nat.le_refl _, fun doc => ?_⟩⟩
  by_cases same : name = "a"
  · subst name
    have stored : active [.put "a" (some (sampleFilter "a" 1))] "a" =
      some (sampleFilter "a" 1) := rfl
    simp only [List.mem_singleton, List.take_succ_cons, List.take_zero, stored, Option.some.injEq]
    exact ⟨fun both => both.1.symm, fun is => ⟨is.symm, is ▸ rfl⟩⟩
  · have missing : active [.put "a" (some (sampleFilter "a" 1))] name = none := by
      simp [active, contents, Entry.apply, same]
    simp only [List.mem_singleton, List.take_succ_cons, List.take_zero, missing, reduceCtorEq,
      iff_false, not_and]
    rintro rfl named
    exact same named.symm

/-- A run with one filter in the snapshot and one that arrives while the stream is
open; both are then held by the consumer. -/
theorem cdc_converges_two_filters :
    ∃ w : World, Reachable Initial Step w ∧ w.streamPosition = some 2 ∧ w.log.length = 2 ∧
      (∀ name, w.consumer.lookup name = active w.log name) ∧ w.consumer.keys = {"a", "b"} := by
  let first := sampleFilter "a" 1
  let second := sampleFilter "b" 2
  let upsertFirst : Delivery := ⟨.upsert "a" first, .snapshot⟩
  let ready : Delivery := ⟨.ready, .announcement⟩
  let log : Log := [.put "a" (some first)]
  let tailed : FilterCdc := { resumeTime := some 1, live := {"a"} }
  have written : Reachable Initial Step { log := log } :=
    .next (.start ⟨[], by simp [Keyed], rfl⟩) (.write {} _ ⟨.upsert 1 (sampleFilter "a" 0),
      by simp [StoreWrite.name, sampleFilter], rfl⟩)
  have pinned : Reachable Initial Step { log := log, phase := .listing 1 1 } :=
    (written.next (.run _ false rfl)).next (.pin _ 1 1 rfl rfl ⟨Nat.le_refl _, rfl⟩)
  have listed : Reachable Initial Step { log := log, phase := .upserting 1 [first] [first] } :=
    pinned.next (.list _ 1 1 [first] rfl sampleListing)
  have sent : Reachable Initial Step
      { log := log, cdc := { live := {"a"} }, delivered := [upsertFirst],
        phase := .upserting 1 [first] [] } :=
    listed.next (.sendUpsert _ 1 [first] [] first rfl)
  have compared : Reachable Initial Step
      { log := log, cdc := { live := {"a"} }, delivered := [upsertFirst],
        phase := .removing 1 [first] [] } :=
    sent.next (.stale _ 1 [first] [] rfl ⟨List.nodup_nil, by simp [first, sampleFilter]⟩)
  have opened : Reachable Initial Step
      { log := log, cdc := tailed, delivered := [upsertFirst], snapshots := [1],
        phase := .announcing 1 } :=
    (compared.next (.snapshotted _ 1 [first] rfl)).next (.watch _ 1 none rfl (Or.inl rfl))
  have rewritten : Reachable Initial Step
      { log := log ++ [.put "b" (some second)], cdc := tailed,
        delivered := [upsertFirst, ready], snapshots := [1], phase := .tailing 1 } :=
    (opened.next (.announce _ 1 rfl)).next (.write _ _ ⟨.upsert 2 (sampleFilter "b" 0),
      by simp [StoreWrite.name, sampleFilter], rfl⟩)
  have read : Reachable Initial Step
      { log := log ++ [.put "b" (some second)], cdc := tailed,
        delivered := [upsertFirst, ready], snapshots := [1],
        phase := .sending 1 (.upsert "b" second) } :=
    rewritten.next (.next _ 1 ⟨.insert, some second, "b"⟩ _ rfl
      ⟨2, by decide, Nat.le_refl _, rfl⟩ rfl)
  have delivered := read.next (.deliver _ 1 (.upsert "b" second) (some 2) rfl (Or.inr rfl))
  have ended : ∀ i, 2 ≤ i → (log ++ [.put "b" (some second)])[i]? = none := fun i beyond =>
    List.getElem?_eq_none beyond
  refine ⟨_, delivered, rfl, rfl, ?_, by decide +kernel⟩
  refine (cdc_converges _ delivered).1 2 rfl ?_ ?_
  · intro i key document beyond present
    cases (ended i beyond).symm.trans present
  · intro i beyond present
    cases (ended i beyond).symm.trans present

end FluffyCore.MongoStore
