import FluffyCore.Library.ChangeLog
import FluffyCore.Library.Histories
import FluffyCore.Sessions.MongoSessions

/-!
# What requests make of each other's sessions

A request gets hold of a session in one of two ways: it makes the id itself, or it has a cookie
that was set for the name of the session and reads the document. Only then does it write. So
what a request reads is what was saved last, a document is written by no request that has not
read it or made it, and sessions of different names never meet.

A session that is gone while no request holds it stays gone, whatever cookies come in.
-/

namespace FluffyCore.Sessions

open Library.Interleaving Library.MapLoop Library.Histories

/-- The write an entry of the history stands for. -/
def Entry.write : Entry → Option (Library.ChangeLog.Entry Nat Values)
  | .saved _ id values => some (.put id (some values))
  | .removed id => some (.put id none)
  | _ => none

/-- The values a history leaves under each id. -/
def stored (log : List Entry) : Nat → Option Values :=
  Library.ChangeLog.contents (log.filterMap Entry.write)

/-- What has to have happened before an entry. -/
def Justifies (before : List Entry) : Entry → Prop
  | .minted _ _ id => ∀ call name, .minted call name id ∉ before
  | .loaded _ id values => (∃ name, .issued name id ∈ before) ∧ stored before id = some values
  | .saved call id _ => (∃ name, .minted call name id ∈ before) ∨
      ∃ values, .loaded call id values ∈ before
  | .removed _ => True
  | .issued name id => ∃ call, .minted call name id ∈ before

/-- How the store and its history belong together. -/
structure Records (s : Store) : Prop where
  below : ∀ call name id, .minted call name id ∈ s.log → id < s.next
  once : ∀ call name id call' name', .minted call name id ∈ s.log →
    .minted call' name' id ∈ s.log → call' = call ∧ name' = name
  named : ∀ id doc, s.coll.lookup id = some doc → ∃ call, .minted call doc.data.name id ∈ s.log
  cookies : ∀ cookie ∈ s.issued, .issued cookie.name cookie.content ∈ s.log
  contents : ∀ id, (s.coll.lookup id).map (·.data.content) = stored s.log id
  explained : Explained Justifies s.log

/-- What entitles a request to the session it holds and to the document it asks for. -/
structure Entitled (call : Nat) (s : Store) (phase : Phase) : Prop where
  held : ∀ id, phase.held = some id → ∃ maker, .minted maker phase.name id ∈ s.log ∧
    (maker = call ∨ ∃ values, .loaded call id values ∈ s.log)
  asked : ∀ id, phase.asked = some id → ⟨phase.name, id⟩ ∈ s.issued

section Stores

/-- Only an entry that writes changes what is stored, and it is applied last. -/
theorem stored_append (log : List Entry) (entry : Entry) :
    stored (log ++ [entry]) = entry.write.elim (stored log) fun write =>
      write.apply (stored log) := by
  unfold stored
  rw [List.filterMap_append]
  cases isWrite : entry.write with
  | none => simp [isWrite]
  | some write => simp [isWrite, Library.ChangeLog.contents_append_singleton]

/-- The history of a store only grows, and so do its cookies. -/
def Grows (s s' : Store) : Prop := s.log <+: s'.log ∧ s.issued <+: s'.issued

/-- What entitles a request stays in a history that grows. -/
theorem Entitled.grow {call : Nat} {s s' : Store} {phase : Phase} (grows : Grows s s')
    (entitled : Entitled call s phase) : Entitled call s' phase where
  held id isHeld := by
    obtain ⟨maker, made, right⟩ := entitled.held id isHeld
    exact ⟨maker, grows.1.subset made, right.imp_right fun ⟨values, loaded⟩ =>
      ⟨values, grows.1.subset loaded⟩⟩
  asked id isAsked := grows.2.subset (entitled.asked id isAsked)

/-- No step takes an entry or a cookie back. -/
theorem SessionStep.grows {call : Nat} {s s' : Store} {phase phase' : Phase}
    (step : SessionStep call s phase s' phase') : Grows s s' := by
  cases step with
  | keep | leave | ask => exact ⟨List.prefix_rfl, List.prefix_rfl⟩
  | load | mint | replace | remove => exact ⟨List.prefix_append _ _, List.prefix_rfl⟩
  | issue => exact ⟨List.prefix_append _ _, List.prefix_append _ _⟩

/-- A step that makes no id adds one justified entry to the records. -/
theorem Records.note {s : Store} (records : Records s) (entry : Entry)
    (coll : FiniteMap Nat Document) (issued : List (Sealed Nat))
    (justified : Justifies s.log entry) (other : ∀ call name id, .minted call name id ≠ entry)
    (named : ∀ id doc, coll.lookup id = some doc → ∃ call, .minted call doc.data.name id ∈ s.log)
    (contents : ∀ id, (coll.lookup id).map (·.data.content) = stored (s.log ++ [entry]) id)
    (cookies : ∀ cookie ∈ issued, .issued cookie.name cookie.content ∈ s.log ++ [entry]) :
    Records ⟨coll, s.next, issued, s.log ++ [entry]⟩ := by
  have minted : ∀ call name id, .minted call name id ∈ s.log ++ [entry] →
      .minted call name id ∈ s.log := by
    intro call name id listed
    simpa [other] using listed
  exact {
    below := fun call name id listed => records.below call name id (minted _ _ _ listed)
    once := fun call name id call' name' first second =>
      records.once call name id call' name' (minted _ _ _ first) (minted _ _ _ second)
    named := fun id doc found => (named id doc found).imp fun call listed =>
      List.mem_append_left _ listed
    cookies := cookies
    contents := contents
    explained := records.explained.append_singleton justified }

/-- The cookies stay in the records when an entry is added. -/
theorem Records.cookies_append {s : Store} (records : Records s) (entry : Entry) :
    ∀ cookie ∈ s.issued, .issued cookie.name cookie.content ∈ s.log ++ [entry] :=
  fun cookie listed => List.mem_append_left _ (records.cookies cookie listed)

/-- A request with a cookie notes what it read. -/
theorem Records.noteLoaded {s : Store} (records : Records s) (call id : Nat) (doc : Document)
    (found : s.coll.lookup id = some doc) (cookie : Sealed Nat) (isCookie : cookie ∈ s.issued)
    (names : cookie.content = id) : Records (s.noteLoaded call id doc.data.content) := by
  have held := records.contents id
  rw [found, Option.map_some] at held
  refine records.note _ s.coll s.issued ⟨⟨cookie.name, ?_⟩, held.symm⟩ (by simp) records.named
    (fun id => ?_) (records.cookies_append _)
  · exact names ▸ records.cookies cookie isCookie
  · rw [stored_append]
    exact records.contents id

/-- Removing a document keeps the records. -/
theorem Records.remove {s : Store} (records : Records s) (id : Nat) : Records (s.remove id) := by
  refine records.note (.removed id) _ s.issued trivial (by simp) (fun other doc found => ?_)
    (fun other => ?_) (records.cookies_append _)
  · by_cases same : other = id
    · subst same
      simp at found
    · rw [Finmap.lookup_erase_ne same] at found
      exact records.named other doc found
  · rw [stored_append]
    by_cases same : other = id
    · subst same
      simp [Entry.write, Library.ChangeLog.Entry.apply]
    · rw [Finmap.lookup_erase_ne same, records.contents]
      simp [Entry.write, Library.ChangeLog.Entry.apply, same]

/-- Saving keeps the records, when the request has made the session or read it. -/
theorem Records.replace {s : Store} (records : Records s) (call id modified : Nat)
    (session : Session) (maker : Nat) (made : .minted maker session.name id ∈ s.log)
    (right : maker = call ∨ ∃ values, .loaded call id values ∈ s.log) :
    Records (s.replace call session id modified) := by
  refine records.note (.saved call id session.values) _ s.issued ?_ (by simp)
    (fun other doc found => ?_) (fun other => ?_) (records.cookies_append _)
  · exact right.imp_left fun own => ⟨session.name, by rw [← own]; exact made⟩
  · by_cases same : other = id
    · subst same
      rw [Finmap.lookup_insert] at found
      obtain rfl := Option.some.inj found
      exact ⟨maker, made⟩
    · rw [Finmap.lookup_insert_of_ne _ same] at found
      exact records.named other doc found
  · rw [stored_append]
    by_cases same : other = id
    · subst same
      simp [Entry.write, Library.ChangeLog.Entry.apply, document]
    · rw [Finmap.lookup_insert_of_ne _ same, records.contents]
      simp [Entry.write, Library.ChangeLog.Entry.apply, same]

/-- Setting a cookie keeps the records, when its session was made for its name. -/
theorem Records.setToken {s : Store} (records : Records s) (name : String) (id maker : Nat)
    (made : .minted maker name id ∈ s.log) : Records (s.setToken name id) := by
  refine records.note (.issued name id) s.coll _ ⟨maker, made⟩ (by simp) records.named
    (fun other => ?_) (fun cookie listed => ?_)
  · rw [stored_append]
    exact records.contents other
  · rcases List.mem_append.1 listed with old | isNew
    · exact records.cookies_append _ cookie old
    · rw [List.mem_singleton.1 isNew]
      simp

/-- A new id is larger than all that were made, so it is made once. -/
theorem Records.mint {s : Store} (records : Records s) (call : Nat) (name : String) :
    Records (s.mint call name) := by
  have fresh : ∀ call name, .minted call name s.next ∉ s.log :=
    fun call name listed => Nat.lt_irrefl _ (records.below call name s.next listed)
  have minted : ∀ call' name' id, .minted call' name' id ∈ s.log ++ [.minted call name s.next] →
      .minted call' name' id ∈ s.log ∨ call' = call ∧ name' = name ∧ id = s.next := by
    intro call' name' id listed
    simpa using listed
  exact {
    below := fun call' name' id listed => by
      rcases minted _ _ _ listed with old | ⟨_, _, rfl⟩
      · exact Nat.lt_succ_of_lt (records.below call' name' id old)
      · exact Nat.lt_succ_self _
    once := fun call₁ name₁ id call₂ name₂ first second => by
      rcases minted _ _ _ first with old | ⟨rfl, rfl, rfl⟩
      · rcases minted _ _ _ second with old' | ⟨rfl, rfl, rfl⟩
        · exact records.once _ _ _ _ _ old old'
        · exact absurd old (fresh _ _)
      · rcases minted _ _ _ second with old' | ⟨rfl, rfl, _⟩
        · exact absurd old' (fresh _ _)
        · exact ⟨rfl, rfl⟩
    named := fun id doc found => (records.named id doc found).imp fun _ listed =>
      List.mem_append_left _ listed
    cookies := records.cookies_append _
    contents := fun id => by
      rw [Store.mint, stored_append]
      exact records.contents id
    explained := records.explained.append_singleton fresh }

end Stores

section Runs

variable {call : Nat} {s s' : Store} {phase phase' : Phase}

/-- A step keeps the records. -/
theorem SessionStep.records (step : SessionStep call s phase s' phase') (records : Records s)
    (entitled : Entitled call s phase) : Records s' := by
  cases step with
  | keep | leave | ask => exact records
  | load id doc _ _ _ _ asked found same =>
    exact records.noteLoaded call id doc found _ (entitled.asked id asked) rfl
  | mint => exact records.mint call phase.name
  | replace session id modified _ isName _ held =>
    obtain ⟨maker, made, right⟩ := entitled.held id held
    exact records.replace call id modified session maker (isName ▸ made) right
  | remove id => exact records.remove id
  | issue id _ _ held =>
    obtain ⟨maker, made, _⟩ := entitled.held id held
    exact records.setToken phase.name id maker made

/-- A request that holds what it held is entitled to it. -/
theorem Entitled.same (entitled : Entitled call s phase) (named : phase'.name = phase.name)
    (holds : phase'.held = phase.held) (asks : phase'.asked = none) : Entitled call s phase' where
  held id isHeld := named ▸ entitled.held id (holds ▸ isHeld)
  asked id isAsked := absurd (asks.symm.trans isAsked) (by simp)

/-- A request with a new session is entitled to it if it made the id or read the document. -/
theorem Entitled.obtained {id maker : Nat} (holds : phase.held = some id)
    (asks : phase.asked = none) (made : .minted maker phase.name id ∈ s.log)
    (right : maker = call ∨ ∃ values, .loaded call id values ∈ s.log) :
    Entitled call s phase where
  held other isHeld := by
    obtain rfl := Option.some.inj (holds.symm.trans isHeld)
    exact ⟨maker, made, right⟩
  asked other isAsked := absurd (asks.symm.trans isAsked) (by simp)

/-- After a step its request is entitled to what it holds. -/
theorem SessionStep.entitled (step : SessionStep call s phase s' phase') (records : Records s)
    (entitled : Entitled call s phase) : Entitled call s' phase' := by
  have old := entitled.grow step.grows
  cases step with
  | keep _ named holds asks => exact old.same named holds asks
  | leave _ named free asks =>
    exact ⟨fun id isHeld => absurd (free.symm.trans isHeld) (by simp), fun id isAsked =>
      absurd (asks.symm.trans isAsked) (by simp)⟩
  | ask id _ named holds asks accepted =>
    refine ⟨fun id isHeld => absurd (holds.symm.trans isHeld) (by simp), fun id isAsked => ?_⟩
    obtain rfl := Option.some.inj (asks.symm.trans isAsked)
    exact named ▸ accepted
  | load id doc _ named holds asks asked found same =>
    obtain ⟨maker, made⟩ := records.named id doc found
    have wasMade : .minted maker phase'.name id ∈ (s.noteLoaded call id doc.data.content).log := by
      rw [named, ← same]
      exact List.mem_append_left _ made
    exact .obtained holds asks wasMade (Or.inr ⟨doc.data.content, by simp [Store.noteLoaded]⟩)
  | mint _ named free holds asks =>
    exact .obtained holds asks (by simp [Store.mint, named]) (Or.inl rfl)
  | replace _ id _ _ _ named held holds asks => exact old.same named (holds.trans held.symm) asks
  | remove id _ named held holds asks => exact old.same named (holds.trans held.symm) asks
  | issue id _ named held holds asks => exact old.same named (holds.trans held.symm) asks

/-- The records are kept in every schedule, and every request is entitled to its session. -/
theorem session_invariant (maxAge : Int) :
    (sessionSystem maxAge).Invariant (fun _ s => Records s) Entitled where
  initially := ⟨by simp [sessionSystem], by simp [sessionSystem], by simp [sessionSystem],
    by simp [sessionSystem], fun _ => rfl, explained_nil _⟩
  begins _ _ _ records := ⟨records, by simp [sessionSystem, Phase.held],
    by simp [sessionSystem, Phase.asked]⟩
  moves choice _ id s phase s' phase' _ records entitled moved :=
    have step := next_step choice phase phase' s' moved
    ⟨step.records records entitled, step.entitled records entitled⟩
  interferes choice _ id s phase s' phase' _ _ _ _ _ theirs moved :=
    theirs.grow (next_step choice phase phase' s' moved).grows
  events id _ s s' records changed := by
    obtain rfl := Option.some.inj changed
    exact ⟨records.remove id, fun call phase theirs =>
      theirs.grow ⟨List.prefix_append _ _, List.prefix_rfl⟩⟩

/-- Every entry of the history is justified by what came before it: an id is made once, a
cookie is set for a session under the name it was made for, a document is written by the
request that made it or by one that has read it, and a request reads what was saved last, with
a cookie that was set before. -/
theorem session_history_explained (maxAge : Int)
    (schedule : List (Action String Choice Nat)) (config : Config Store Phase)
    (ran : (sessionSystem maxAge).run schedule = some config) :
    Explained Justifies config.shared.log :=
  ((session_invariant maxAge).run schedule config ran).1.explained

/-- A request saves a session and a second one comes back with its cookie. -/
def comesBack : List (Action String Choice Nat) :=
  [.call "sid", .move 0 .noToken, .move 0 (.set "user" (.other "u1")), .move 0 (.save 7 true),
    .move 0 (.write none true), .move 0 (.seal true), .call "sid", .move 1 (.presents 0 false),
    .move 1 (.find none false)]

/-- The two requests make, save, hand out and load one session, each entry after what justifies
it. -/
theorem comesBack_history_explained :
    ∃ config, (sessionSystem 3600).run comesBack = some config ∧ config.shared.log.length = 4 ∧
      Explained Justifies config.shared.log := by
  have ran : ∃ config, (sessionSystem 3600).run comesBack = some config ∧
      config.shared.log.length = 4 := ⟨_, rfl, rfl⟩
  obtain ⟨config, isConfig, long⟩ := ran
  exact ⟨config, isConfig, long, session_history_explained 3600 comesBack config isConfig⟩

/-- Requests that hold the same session are for the same name, and so is its document. -/
theorem same_session_same_name (maxAge : Int) (schedule : List (Action String Choice Nat))
    (config : Config Store Phase) (ran : (sessionSystem maxAge).run schedule = some config)
    (first second : Nat) (phase phase' : Phase) (isFirst : config.calls[first]? = some phase)
    (isSecond : config.calls[second]? = some phase') (id : Nat) (held : phase.held = some id)
    (held' : phase'.held = some id) :
    phase'.name = phase.name ∧
      ∀ doc, config.shared.coll.lookup id = some doc → doc.data.name = phase.name := by
  obtain ⟨records, entitled⟩ := (session_invariant maxAge).run schedule config ran
  obtain ⟨maker, made, _⟩ := (entitled first phase isFirst).held id held
  obtain ⟨maker', made', _⟩ := (entitled second phase' isSecond).held id held'
  refine ⟨(records.once _ _ _ _ _ made made').2, fun doc found => ?_⟩
  obtain ⟨writer, written⟩ := records.named id doc found
  exact (records.once _ _ _ _ _ made written).2

/-- Both requests hold the one session under the name it was made for. -/
theorem comesBack_same_name :
    ∃ config phase phase', (sessionSystem 3600).run comesBack = some config ∧
      config.calls[0]? = some phase ∧ config.calls[1]? = some phase' ∧ phase.held = some 0 ∧
      phase'.held = some 0 ∧ phase'.name = phase.name := by
  have ran : ∃ config phase phase', (sessionSystem 3600).run comesBack = some config ∧
      config.calls[0]? = some phase ∧ config.calls[1]? = some phase' ∧ phase.held = some 0 ∧
      phase'.held = some 0 := ⟨_, _, _, rfl, rfl, rfl, rfl, rfl⟩
  obtain ⟨config, phase, phase', isConfig, isFirst, isSecond, held, held'⟩ := ran
  exact ⟨config, phase, phase', isConfig, isFirst, isSecond, held, held',
    (same_session_same_name 3600 comesBack config isConfig 0 1 phase phase' isFirst isSecond 0 held
      held').1⟩

end Runs

section Gone

/-- A session that was made, has no document, and is held by no request. -/
structure Gone (id : Nat) (config : Config Store Phase) : Prop where
  made : id < config.shared.next
  absent : config.shared.coll.lookup id = none
  free : ∀ phase ∈ config.calls, phase.held ≠ some id

/-- A step of a request brings no gone session back into the store, and the request does not
get hold of it. -/
theorem SessionStep.gone {call id : Nat} {s s' : Store} {phase phase' : Phase}
    (step : SessionStep call s phase s' phase') (made : id < s.next)
    (absent : s.coll.lookup id = none) (free : phase.held ≠ some id) :
    id < s'.next ∧ s'.coll.lookup id = none ∧ phase'.held ≠ some id := by
  cases step with
  | keep _ _ holds => exact ⟨made, absent, holds ▸ free⟩
  | leave _ _ holds => exact ⟨made, absent, by simp [holds]⟩
  | ask _ _ _ holds => exact ⟨made, absent, by simp [holds]⟩
  | load loaded doc _ _ holds _ _ found =>
    refine ⟨made, absent, fun isHeld => ?_⟩
    obtain rfl := Option.some.inj (holds.symm.trans isHeld)
    exact absurd (absent.symm.trans found) (by simp)
  | mint _ _ _ holds =>
    refine ⟨Nat.lt_succ_of_lt made, absent, fun isHeld => ?_⟩
    obtain rfl := Option.some.inj (holds.symm.trans isHeld)
    exact Nat.lt_irrefl _ made
  | replace session written modified _ _ _ held holds =>
    have other : id ≠ written := fun same => free (same ▸ held)
    exact ⟨made, (Finmap.lookup_insert_of_ne _ other).trans absent,
      fun isHeld => free (held.trans (holds.symm.trans isHeld))⟩
  | remove removed _ _ held holds =>
    have other : id ≠ removed := fun same => free (same ▸ held)
    exact ⟨made, (Finmap.lookup_erase_ne other).trans absent,
      fun isHeld => free (held.trans (holds.symm.trans isHeld))⟩
  | issue _ _ _ held holds =>
    exact ⟨made, absent, fun isHeld => free (held.trans (holds.symm.trans isHeld))⟩

/-- One step of the system keeps a session gone. -/
theorem Gone.step {maxAge : Int} {id : Nat} {config after : Config Store Phase}
    (action : Action String Choice Nat) (gone : Gone id config)
    (taken : (sessionSystem maxAge).step config action = some after) : Gone id after := by
  cases action with
  | call name =>
    obtain rfl := Option.some.inj taken
    refine ⟨gone.made, gone.absent, fun phase listed => ?_⟩
    rcases List.mem_append.1 listed with old | isNew
    · exact gone.free phase old
    · rw [List.mem_singleton.1 isNew]
      simp [sessionSystem, Phase.held]
  | move call choice =>
    obtain ⟨phase, isPhase, moved⟩ := Option.bind_eq_some_iff.1 taken
    obtain ⟨⟨s', phase'⟩, isMove, rfl⟩ := Option.map_eq_some_iff.1 moved
    obtain ⟨made, absent, free⟩ := (next_step choice phase phase' s' isMove).gone gone.made
      gone.absent (gone.free phase (List.mem_of_getElem? isPhase))
    refine ⟨made, absent, fun other listed => ?_⟩
    rcases List.mem_or_eq_of_mem_set listed with old | rfl
    · exact gone.free other old
    · exact free
  | event removed =>
    obtain rfl := Option.some.inj taken
    refine ⟨gone.made, ?_, gone.free⟩
    by_cases same : id = removed
    · subst same
      exact Finmap.lookup_erase _ _
    · exact (Finmap.lookup_erase_ne same).trans gone.absent

/-- A session that is gone stays gone, whatever requests come later and whatever cookies they
bring. -/
theorem gone_stays_gone (maxAge : Int) (id : Nat)
    (before later : List (Action String Choice Nat)) (config after : Config Store Phase)
    (reached : (sessionSystem maxAge).run before = some config) (gone : Gone id config)
    (ran : (sessionSystem maxAge).run (before ++ later) = some after) : Gone id after :=
  (sessionSystem maxAge).run_keeps (Gone id) (fun _ _ action gone taken => gone.step action taken)
    before later config after reached gone ran

/-- The second request deletes the session, and both are answered. -/
def signsOut : List (Action String Choice Nat) :=
  comesBack ++ [.move 1 (.setMaxAge (-1)), .move 1 (.save 9 true), .move 1 (.write none true),
    .move 1 .finish, .move 0 .finish]

/-- A third request that brings the old cookie finds nothing. -/
theorem signed_out_stays_gone :
    ∃ after, (sessionSystem 3600).run (signsOut ++ [.call "sid", .move 2 (.presents 0 false),
      .move 2 (.find none false)]) = some after ∧ Gone 0 after := by
  have reached : ∃ config, (sessionSystem 3600).run signsOut = some config ∧
      config.shared.next = 1 ∧ config.shared.coll.lookup 0 = none ∧
      config.calls = [.done "sid", .done "sid"] := ⟨_, rfl, rfl, rfl, rfl⟩
  have ran : ((sessionSystem 3600).run (signsOut ++ [.call "sid", .move 2 (.presents 0 false),
      .move 2 (.find none false)])).isSome := rfl
  obtain ⟨config, isConfig, made, absent, calls⟩ := reached
  obtain ⟨after, isAfter⟩ := Option.isSome_iff_exists.1 ran
  have gone : Gone 0 config := ⟨by omega, absent, by simp [calls, Phase.held]⟩
  exact ⟨after, isAfter, gone_stays_gone 3600 0 signsOut _ config after isConfig gone isAfter⟩

end Gone

end FluffyCore.Sessions
