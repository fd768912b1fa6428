import FluffyCore.MongoStore.FilterCdc

/-!
# Positions a run may resume from

What carries the convergence proof is a property of a position and a map: the map
is right for every filter that no log entry from the position on touches.
Reporting the event at the position moves it past that event, because the document
reported was read after the write. A write to the collection keeps it, because it
touches the filter it writes. At the end of the log no filter is touched any more,
and the map is the collection.
-/

namespace FluffyCore.MongoStore

open Library.MapLoop Library.ChangeLog

/-- The map is right for every filter untouched from the position on. -/
def Covered (log : Log) (held : FiniteMap String FilterDocument) (position : Nat) : Prop :=
  ∀ name, Untouched log position name → held.lookup name = active log name

/-- A write touches the filter it writes, so it keeps the others right. -/
theorem Covered.append {log : Log} {held : FiniteMap String FilterDocument} {position : Nat}
    (covered : Covered log held position) (inside : position ≤ log.length)
    (entry : Entry String FilterDocument) : Covered (log ++ [entry]) held position := by
  intro name untouched
  obtain ⟨before, last⟩ := untouched.of_append inside
  rw [covered name before, active, active, contents_append_of_untouched log [entry] name last]

/-- At the end of the log every filter is right. -/
theorem Covered.at_end {log : Log} {held : FiniteMap String FilterDocument} {position : Nat}
    (covered : Covered log held position) (atEnd : log.length ≤ position) (name : String) :
    held.lookup name = active log name := by
  apply covered name
  rw [Untouched, List.drop_eq_nil_of_le atEnd]
  simp

/-- A change that is about a filter touched later does not matter for a position
before it. -/
theorem Covered.of_touched {log : Log} {held held' : FiniteMap String FilterDocument}
    {position : Nat} (covered : Covered log held position) (key : String)
    (touched : ¬ Untouched log position key)
    (others : ∀ name, name ≠ key → held'.lookup name = held.lookup name) :
    Covered log held' position := by
  intro name untouched
  have other : name ≠ key := by
    rintro rfl
    exact touched untouched
  rw [others name other, covered name untouched]

/-- The document just after a write. -/
theorem contents_after_put (log : Log) (position : Nat) (key : String)
    (document : Option FilterDocument) (present : log[position]? = some (.put key document)) :
    contents (log.take (position + 1)) key = document := by
  rw [contents_take_succ log position _ present, Entry.apply, Function.update_self]

/-- The event of a written document carries the key's document as of some moment
after the write; any other event is a delete. -/
theorem changeEvent_spec (log : Log) (position moment : Nat) (raw : ChangeEvent)
    (later : position < moment) (event : changeEvent log position moment = some raw) :
    ∃ key document, log[position]? = some (.put key document) ∧
      ((document = none ∧ raw = ⟨.delete, none, key⟩) ∨
        (document ≠ none ∧ (raw.operationType = .insert ∨ raw.operationType = .update) ∧
          ∃ reading, position < reading ∧ raw.fullDocument = contents (log.take reading) key)) := by
  unfold changeEvent at event
  split at event
  · next key doc present =>
    refine ⟨key, some doc, present, Or.inr ⟨by simp, ?_⟩⟩
    split at event
    · obtain rfl := Option.some.inj event
      exact ⟨Or.inl rfl, position + 1, Nat.lt_succ_self _,
        (contents_after_put log position key _ present).symm⟩
    · obtain rfl := Option.some.inj event
      exact ⟨Or.inr rfl, moment, later, rfl⟩
  · next key present =>
    exact ⟨key, none, present, Or.inl ⟨rfl, (Option.some.inj event).symm⟩⟩
  · cases event
  · cases event

/-- Decoding an insert or an update looks at the full document only. -/
theorem decodeEvent_written (raw : ChangeEvent)
    (written : raw.operationType = .insert ∨ raw.operationType = .update) :
    decodeEvent raw = decodeWritten raw.operationType raw.fullDocument := by
  rcases written with kind | kind <;> simp only [decodeEvent, kind]

/-- Applying a written document leaves its name active exactly when the document is. -/
theorem applyChange_written (held : FiniteMap String FilterDocument) (doc : FilterDocument) :
    (applyChange held (writtenChange doc)).lookup doc.name =
      (some doc).filter fun doc => doc.deletedAt = none := by
  by_cases kept : doc.deletedAt = none
  · simp [writtenChange, applyChange, kept, Option.filter]
  · simp [writtenChange, applyChange, kept, Option.filter]

/-- Applying a written document leaves every other name as it was. -/
theorem applyChange_written_of_ne (held : FiniteMap String FilterDocument)
    (doc : FilterDocument) (name : String) (other : name ≠ doc.name) :
    (applyChange held (writtenChange doc)).lookup name = held.lookup name := by
  unfold writtenChange
  split
  · exact Finmap.lookup_erase_ne other
  · exact Finmap.lookup_insert_of_ne held other

/-- What a decoded change does: it is about one filter only, which it leaves as the
collection has it unless a later entry touches that filter. -/
theorem decoded_change (log : Log) (keyed : Keyed log) (position moment : Nat)
    (raw : ChangeEvent) (change : FilterChange) (later : position < moment)
    (event : changeEvent log position moment = some raw)
    (decoded : decodeEvent raw = .ok (some change)) :
    ∃ key, ¬ Untouched log position key ∧
      (∀ name, name ≠ key → Untouched log (position + 1) name → Untouched log position name) ∧
      (∀ held name, name ≠ key → (applyChange held change).lookup name = held.lookup name) ∧
      (Untouched log (position + 1) key →
        ∀ held, (applyChange held change).lookup key = active log key) := by
  obtain ⟨key, document, present, shape⟩ := changeEvent_spec log position moment raw later event
  have window := fun name => untouched_succ_iff log position name _ present
  refine ⟨key, fun untouched => ((window key).1 untouched).1 rfl,
    fun name other untouched => (window name).2 ⟨fun same => other same.symm, untouched⟩, ?_⟩
  rcases shape with ⟨rfl, rfl⟩ | ⟨_, written, reading, after, found⟩
  · have named : key ≠ "" := (keyed key none (List.mem_of_getElem? present)).1
    obtain rfl : FilterChange.delete key = change := by simpa [decodeEvent, named] using decoded
    refine ⟨fun held name other => by simp [applyChange, Finmap.lookup_erase_ne other], ?_⟩
    intro untouched held
    have gone : contents log key = none := by
      rw [← contents_take_of_untouched log _ _ key untouched (Nat.le_refl _),
        contents_after_put log position key none present]
    simp [applyChange, active, gone]
  · rw [decodeEvent_written raw written, found] at decoded
    cases stored : contents (log.take reading) key with
    | none => simp [stored, decodeWritten] at decoded
    | some doc =>
      have name_eq : doc.name = key := (keyed.take reading).name_eq key doc stored
      rw [stored] at decoded
      obtain rfl := Option.some.inj (Except.ok.inj decoded)
      refine ⟨fun held name other => ?_, fun untouched held => ?_⟩
      · exact applyChange_written_of_ne held doc name (name_eq ▸ other)
      · rw [← name_eq, applyChange_written, active, name_eq, ← stored,
          contents_take_of_untouched log _ _ key untouched after]

/-- An event that cannot be decoded is the update of a filter that was gone when the
event was read, so a later entry touches that filter. -/
theorem undecodable_event (log : Log) (keyed : Keyed log) (position moment : Nat)
    (raw : ChangeEvent) (message : String) (later : position < moment)
    (event : changeEvent log position moment = some raw)
    (undecodable : decodeEvent raw = .error message) (name : String)
    (untouched : Untouched log (position + 1) name) : Untouched log position name := by
  obtain ⟨key, document, present, shape⟩ := changeEvent_spec log position moment raw later event
  refine (untouched_succ_iff log position name _ present).2 ⟨?_, untouched⟩
  rintro rfl
  rcases shape with ⟨rfl, rfl⟩ | ⟨exists_, written, reading, after, found⟩
  · have named : key ≠ "" := (keyed key none (List.mem_of_getElem? present)).1
    simp [decodeEvent, named] at undecodable
  · rw [decodeEvent_written raw written, found,
      contents_take_of_untouched log _ _ key untouched after,
      ← contents_take_of_untouched log _ _ key untouched (Nat.le_refl _),
      contents_after_put log position key document present] at undecodable
    cases document with
    | none => exact exists_ rfl
    | some doc => cases undecodable

/-- Every event that has been reported is decodable or reported as an error. -/
theorem decodeEvent_ne_none (log : Log) (position moment : Nat) (raw : ChangeEvent)
    (later : position < moment) (event : changeEvent log position moment = some raw) :
    decodeEvent raw ≠ .ok none := by
  obtain ⟨key, document, _, shape⟩ := changeEvent_spec log position moment raw later event
  rcases shape with ⟨rfl, rfl⟩ | ⟨_, written, _⟩
  · simp only [decodeEvent]
    split <;> simp
  · rw [decodeEvent_written raw written]
    cases raw.fullDocument <;> simp [decodeWritten]

/-- What is recorded is never lost. -/
structure Extends (w w' : World) : Prop where
  log : ∃ suffix, w'.log = w.log ++ suffix
  delivered : ∀ d ∈ w.delivered, d ∈ w'.delivered
  snapshots : ∀ pin ∈ w.snapshots, pin ∈ w'.snapshots
  skipped : ∀ position ∈ w.skipped, position ∈ w'.skipped

/-- A step on the collection adds to what is recorded. -/
theorem step_extends (w w' : World) (step : Step w w') (keyed : Keyed w.log) : Extends w w' := by
  have same : ∃ suffix, w.log = w.log ++ suffix := ⟨[], by simp⟩
  cases step with
  | write log written =>
    obtain ⟨write, named, rfl⟩ := written
    refine ⟨?_, fun _ => id, fun _ => id, fun _ => id⟩
    obtain ⟨unchanged | ⟨entry, logged⟩, _⟩ := write_spec write w.log keyed named
    · exact ⟨[], by simp [unchanged]⟩
    · exact ⟨[entry], logged⟩
  | fail err calls =>
    unfold World.fail
    split <;> exact ⟨same, fun _ => id, fun _ => id, fun _ => id⟩
  | _ => exact ⟨same, by simp +contextual [World.send], by simp +contextual [World.send],
      by simp +contextual [World.send]⟩

/-- An event read at a moment looks the same in a longer log. -/
theorem changeEvent_append (log suffix : Log) (position moment : Nat) (later : position < moment)
    (past : moment ≤ log.length) :
    changeEvent (log ++ suffix) position moment = changeEvent log position moment := by
  unfold changeEvent
  rw [List.getElem?_append_left (by omega), List.take_append_of_le_length (by omega),
    List.take_append_of_le_length past]

/-- The change of the event at a position was delivered. -/
def World.Delivered (w : World) (position : Nat) : Prop :=
  ∃ d ∈ w.delivered, d.source = .event position ∧ ∃ moment raw, position < moment ∧
    moment ≤ w.log.length ∧ changeEvent w.log position moment = some raw ∧
    decodeEvent raw = .ok (some d.change)

/-- The event at a position was read and could not be decoded. -/
def World.Undecodable (w : World) (position : Nat) : Prop :=
  position ∈ w.skipped ∧ ∃ moment raw message, position < moment ∧ moment ≤ w.log.length ∧
    changeEvent w.log position moment = some raw ∧ decodeEvent raw = .error message

/-- The event at a position is not lost: a snapshot completed that was pinned after
it, or its change was delivered, or it could not be decoded. -/
def World.Accounted (w : World) (position : Nat) : Prop :=
  (∃ pin ∈ w.snapshots, position < pin) ∨ w.Delivered position ∨ w.Undecodable position

/-- An event that is accounted for stays so while the world extends. -/
theorem World.Accounted.mono {w w' : World} {position : Nat} (accounted : w.Accounted position)
    (extended : Extends w w') : w'.Accounted position := by
  obtain ⟨suffix, logged⟩ := extended.log
  rcases accounted with ⟨pin, completed, before⟩ | ⟨d, inside, source, moment, raw, later, past,
    event, decoded⟩ | ⟨read, moment, raw, message, later, past, event, undecodable⟩
  · exact Or.inl ⟨pin, extended.snapshots pin completed, before⟩
  · refine Or.inr (Or.inl ⟨d, extended.delivered d inside, source, moment, raw, later, ?_, ?_,
      decoded⟩)
    · rw [logged, List.length_append]
      omega
    · rw [logged, changeEvent_append _ _ _ _ later past, event]
  · refine Or.inr (Or.inr ⟨extended.skipped position read, moment, raw, message, later, ?_, ?_,
      undecodable⟩)
    · rw [logged, List.length_append]
      omega
    · rw [logged, changeEvent_append _ _ _ _ later past, event]

/-- A position the CDC may resume from: the consumer's map is right for what the
stream will not report again, and no event before it is lost. -/
structure Safe (w : World) (position : Nat) : Prop where
  inside : position ≤ w.log.length
  covered : Covered w.log w.consumer position
  accounted : ∀ i < position, w.Accounted i

/-- A step that leaves the collection and the consumer alone keeps a position safe. -/
theorem Safe.frame {w w' : World} {position : Nat} (safe : Safe w position)
    (extended : Extends w w') (log : w'.log = w.log) (held : w'.consumer = w.consumer) :
    Safe w' position := by
  refine ⟨log ▸ safe.inside, ?_, fun i before => (safe.accounted i before).mono extended⟩
  rw [log, held]
  exact safe.covered

/-- A write to the collection keeps a position safe. -/
theorem Safe.write {w : World} {position : Nat} (safe : Safe w position) (write : StoreWrite)
    (keyed : Keyed w.log) (named : ∀ name, write.name = some name → name ≠ "") :
    Safe { w with log := write.apply w.log } position := by
  have extended := step_extends w _ (.write w _ ⟨write, named, rfl⟩) keyed
  obtain ⟨unchanged | ⟨entry, logged⟩, _⟩ := write_spec write w.log keyed named
  · exact safe.frame extended unchanged rfl
  · refine ⟨?_, ?_, fun i before => (safe.accounted i before).mono extended⟩
    · have inside := safe.inside
      simp only [logged, List.length_append]
      omega
    · simp only [logged]
      exact safe.covered.append safe.inside entry

/-- A change that is sent is applied to the consumer's map after all earlier ones. -/
theorem consumer_send (w : World) (change : FilterChange) (source : Source) :
    (w.send change source).consumer = applyChange w.consumer change := by
  simp [World.consumer, World.send]

/-- Delivering the event at a position leaves every earlier position safe, and makes
the next one safe when this one is. -/
theorem Safe.deliver {w w' : World} {position moment : Nat} {raw : ChangeEvent}
    {change : FilterChange} (keyed : Keyed w.log) (extended : Extends w w')
    (log : w'.log = w.log) (held : w'.consumer = applyChange w.consumer change)
    (recorded : ⟨change, .event position⟩ ∈ w'.delivered) (later : position < moment)
    (past : moment ≤ w.log.length) (event : changeEvent w.log position moment = some raw)
    (decoded : decodeEvent raw = .ok (some change)) :
    (∀ saved ≤ position, Safe w saved → Safe w' saved) ∧
      (Safe w position → Safe w' (position + 1)) := by
  obtain ⟨key, touched, window, others, exact_⟩ :=
    decoded_change w.log keyed position moment raw change later event decoded
  constructor
  · intro saved before safe
    refine ⟨log ▸ safe.inside, ?_, fun i earlier => (safe.accounted i earlier).mono extended⟩
    rw [log, held]
    exact safe.covered.of_touched key (fun untouched => touched (untouched.mono before))
      (others w.consumer)
  · intro safe
    refine ⟨by rw [log]; omega, ?_, ?_⟩
    · rw [log, held]
      intro name untouched
      by_cases same : name = key
      · subst name
        exact exact_ untouched w.consumer
      · rw [others w.consumer name same, safe.covered name (window name same untouched)]
    · intro i before
      rcases Nat.lt_succ_iff_lt_or_eq.1 before with earlier | rfl
      · exact (safe.accounted i earlier).mono extended
      · exact Or.inr (Or.inl ⟨_, recorded, rfl, moment, raw, later, log ▸ past,
          log.symm ▸ event, decoded⟩)

/-- Skipping an event that cannot be decoded makes the next position safe. -/
theorem Safe.skip {w w' : World} {position moment : Nat} {raw : ChangeEvent} {message : String}
    (safe : Safe w position) (keyed : Keyed w.log) (extended : Extends w w')
    (log : w'.log = w.log) (held : w'.consumer = w.consumer)
    (recorded : position ∈ w'.skipped) (later : position < moment)
    (past : moment ≤ w.log.length) (event : changeEvent w.log position moment = some raw)
    (undecodable : decodeEvent raw = .error message) : Safe w' (position + 1) := by
  refine ⟨by rw [log]; omega, ?_, ?_⟩
  · rw [log, held]
    intro name untouched
    exact safe.covered name
      (undecodable_event w.log keyed position moment raw message later event undecodable name
        untouched)
  · intro i before
    rcases Nat.lt_succ_iff_lt_or_eq.1 before with earlier | rfl
    · exact (safe.accounted i earlier).mono extended
    · exact Or.inr (Or.inr ⟨recorded, moment, raw, message, later, log ▸ past,
        log.symm ▸ event, undecodable⟩)

end FluffyCore.MongoStore
