import FluffyCore.Nats.SubjectTokens

/-!
# Replacing one placeholder after the other

What is meant by a parameterized subject is the subject in which every placeholder
has the text of its own field. The client replaces one placeholder after the other in
the whole text, and field values are part of that text. A value may have the
characters of a placeholder that is still to be replaced, alone or together with what
stands around it. Every round does what is meant exactly when the placeholder it
replaces stands at its own segments only.
-/

namespace FluffyCore.Nats

open Library.Replacement

/-- A literal segment of a parameterized subject. -/
structure Literal where
  text : Text
  plain : ∀ c ∈ text, c ≠ '.' ∧ c ≠ '$' ∧ c ≠ '*' ∧ c ≠ '>'

/-- The field path of a placeholder. -/
structure Path where
  name : Text
  nonempty : name ≠ []
  closed : '}' ∉ name

inductive Segment where
  | literal (fixed : Literal)
  | placeholder (path : Path)

def Segment.text : Segment → Text
  | .literal fixed => fixed.text
  | .placeholder path => placeholderText path.name

/-- A parameterized subject from its segments. -/
def render (segments : List Segment) : Text := ['.'].intercalate (segments.map Segment.text)

/-- The field paths of the placeholders, in order. -/
def paths (segments : List Segment) : List Path :=
  segments.filterMap fun
    | .literal _ => none
    | .placeholder path => some path

def names (segments : List Segment) : List Text := (paths segments).map Path.name

/-- The token that is meant by a segment. -/
def Segment.token (value : Text → Text) : Segment → Text
  | .literal fixed => fixed.text
  | .placeholder path => value path.name

/-- A segment after some placeholders were replaced. -/
def Segment.substitute (value : Text → Text) (done : List Text) : Segment → Text
  | .literal fixed => fixed.text
  | .placeholder path =>
      if path.name ∈ done then value path.name else placeholderText path.name

/-- The subject with some placeholders replaced at their own segments. -/
def substituted (value : Text → Text) (done : List Text) (segments : List Segment) : Text :=
  ['.'].intercalate (segments.map (Segment.substitute value done))

section FindPlaceholders

/-- Skipping characters is searching what comes after them. -/
theorem findPlaceholdersFrom_skip (skip : Nat) (text : Text) :
    findPlaceholdersFrom skip text = findPlaceholders (text.drop skip) := by
  induction text generalizing skip with
  | nil => cases skip <;> simp [findPlaceholders, findPlaceholdersFrom]
  | cons c rest inductionHypothesis =>
    cases skip with
    | zero => rfl
    | succ skip => simpa [findPlaceholdersFrom] using inductionHypothesis skip

/-- A placeholder at the front of a text is found. -/
theorem matchPlaceholder_placeholder (path : Path) (rest : Text) :
    matchPlaceholder (placeholderText path.name ++ rest) = some path.name := by
  have name : (path.name ++ '}' :: rest).takeWhile (· ≠ '}') = path.name := by
    rw [List.takeWhile_append_of_pos]
    · simp
    · intro c inside
      simp only [ne_eq, decide_eq_true_eq]
      rintro rfl
      exact path.closed inside
  have shape : placeholderText path.name ++ rest = '$' :: '{' :: (path.name ++ '}' :: rest) := by
    simp [placeholderText]
  rw [shape, matchPlaceholder]
  simp only [name]
  rw [if_pos ⟨path.nonempty, by simp⟩]

/-- A placeholder starts with a dollar sign. -/
theorem matchPlaceholder_of_ne (c : Char) (rest : Text) (other : c ≠ '$') :
    matchPlaceholder (c :: rest) = none := by
  unfold matchPlaceholder
  split
  · next same => exact absurd (List.cons.inj same).1 other
  · rfl

/-- A placeholder at the front is found, and the search goes on behind it. -/
theorem findPlaceholders_placeholder (path : Path) (rest : Text) :
    findPlaceholders (placeholderText path.name ++ rest) = path.name :: findPlaceholders rest := by
  have found := matchPlaceholder_placeholder path rest
  simp only [placeholderText, List.cons_append] at found ⊢
  rw [findPlaceholders, findPlaceholdersFrom, found]
  simp only [findPlaceholdersFrom_skip]
  simp

/-- No placeholder begins with a character other than a dollar sign. -/
theorem findPlaceholders_cons (c : Char) (rest : Text) (other : c ≠ '$') :
    findPlaceholders (c :: rest) = findPlaceholders rest := by
  rw [findPlaceholders, findPlaceholdersFrom, matchPlaceholder_of_ne c rest other]
  rfl

/-- A text without dollar signs has no placeholders, and none that ends in what follows. -/
theorem findPlaceholders_append (text rest : Text) (plain : '$' ∉ text) :
    findPlaceholders (text ++ rest) = findPlaceholders rest := by
  induction text with
  | nil => rfl
  | cons c text inductionHypothesis =>
    rw [List.mem_cons, not_or] at plain
    rw [List.cons_append, findPlaceholders_cons c _ (Ne.symm plain.1), inductionHypothesis plain.2]

/-- A literal segment has no dollar sign. -/
theorem Literal.no_dollar (literal : Literal) : '$' ∉ literal.text :=
  fun inside => (literal.plain _ inside).2.1 rfl

/-- A segment contributes its own placeholder. -/
theorem findPlaceholders_segment (segment : Segment) (rest : Text) :
    findPlaceholders (segment.text ++ rest) = names [segment] ++ findPlaceholders rest := by
  cases segment with
  | literal fixed => exact findPlaceholders_append fixed.text rest fixed.no_dollar
  | placeholder path => exact findPlaceholders_placeholder path rest

/-- The client finds the placeholders of a parameterized subject. -/
theorem findPlaceholders_render (segments : List Segment) :
    findPlaceholders (render segments) = names segments := by
  unfold render
  induction segments with
  | nil => rfl
  | cons segment rest inductionHypothesis =>
    have split : names (segment :: rest) = names [segment] ++ names rest := by
      rw [names, names, names, ← List.map_append, paths, paths, paths, ← List.filterMap_append]
      rfl
    cases rest with
    | nil =>
      have alone := findPlaceholders_segment segment []
      rw [List.append_nil] at alone
      rw [List.map_singleton, List.intercalate_singleton, alone]
      simp [findPlaceholders, findPlaceholdersFrom]
    | cons next rest =>
      rw [split, List.map_cons, List.map_cons, List.intercalate_cons_cons, List.append_assoc,
        findPlaceholders_segment, List.singleton_append, findPlaceholders_cons _ _ (by decide)]
      rw [List.map_cons] at inductionHypothesis
      rw [inductionHypothesis]

end FindPlaceholders

section Rounds

variable (value : Text → Text)

/-- A segment with a mark where a placeholder is still to be replaced. -/
def Segment.marks (done : List Text) (name : Text) : Segment → Marked Char
  | .literal fixed => fixed.text.map some
  | .placeholder path =>
      if path.name ∈ done then (value path.name).map some
      else if path.name = name then [none]
      else (placeholderText path.name).map some

/-- The subject with marks at the segments of a placeholder. -/
def marked (done : List Text) (name : Text) (segments : List Segment) : Marked Char :=
  [some '.'].intercalate (segments.map (Segment.marks value done name))

/-- A subject is filled in segment by segment. -/
theorem fill_marked (text name : Text) (done replaced : List Text) (segments : List Segment)
    (agrees : ∀ segment : Segment, fill text (segment.marks value done name) =
      segment.substitute value replaced) :
    fill text (marked value done name segments) = substituted value replaced segments := by
  rw [marked, fill_intercalate, substituted, List.map_map]
  congr 1
  exact List.map_congr_left fun segment _ => agrees segment

/-- With the placeholder at the marks this is the subject before its round. -/
theorem fill_marked_placeholder (done : List Text) (name : Text) (segments : List Segment) :
    fill (placeholderText name) (marked value done name segments) =
      substituted value done segments := by
  refine fill_marked value _ name done done segments fun segment => ?_
  cases segment with
  | literal fixed => exact fill_map_some _ _
  | placeholder path =>
    simp only [Segment.marks, Segment.substitute]
    by_cases replaced : path.name ∈ done
    · simp [replaced]
    · by_cases same : path.name = name
      · subst same
        simp [replaced]
      · simp [replaced, same]

/-- With the value at the marks this is the subject meant after its round. -/
theorem fill_marked_value (done : List Text) (name : Text) (segments : List Segment) :
    fill (value name) (marked value done name segments) =
      substituted value (name :: done) segments := by
  refine fill_marked value _ name done (name :: done) segments fun segment => ?_
  cases segment with
  | literal fixed => exact fill_map_some _ _
  | placeholder path =>
    simp only [Segment.marks, Segment.substitute, List.mem_cons]
    by_cases replaced : path.name ∈ done
    · simp [replaced]
    · by_cases same : path.name = name
      · subst same
        simp [replaced]
      · simp [replaced, same]

/-- A placeholder does not overlap with itself: its only closing brace is the last
character. -/
theorem placeholderText_unbordered (path : Path) : Unbordered (placeholderText path.name) := by
  intro first border started nonempty split occurs
  have whole : placeholderText path.name = ('$' :: '{' :: path.name) ++ ['}'] := rfl
  have closes : '}' ∈ border := by
    have last : (first ++ border).getLast? = some '}' := by
      rw [← split, whole]
      exact List.getLast?_concat
    rw [List.getLast?_append_of_ne_nil _ nonempty] at last
    exact List.mem_of_getLast? last
  have shorter : border.length ≤ ('$' :: '{' :: path.name).length := by
    have lengths := congrArg List.length split
    rw [whole] at lengths
    have := List.length_pos_of_ne_nil started
    simp only [List.length_append, List.length_cons, List.length_nil] at lengths ⊢
    omega
  have inside : border <+: '$' :: '{' :: path.name :=
    List.prefix_of_prefix_length_le occurs (whole ▸ List.prefix_append _ _) shorter
  have closed := inside.subset closes
  simp only [List.mem_cons] at closed
  rcases closed with impossible | impossible | within
  · exact absurd impossible (by decide)
  · exact absurd impossible (by decide)
  · exact path.closed within

/-- One round does what is meant exactly when the placeholder stands at its own
segments only, or is replaced by itself. -/
theorem round_iff (done : List Text) (path : Path) (segments : List Segment) :
    replaceAll (placeholderText path.name) (value path.name) (substituted value done segments) =
        substituted value (path.name :: done) segments ↔
      value path.name = placeholderText path.name ∨
        OnlyMarked (placeholderText path.name) (marked value done path.name segments) := by
  rw [← fill_marked_placeholder value done path.name, ← fill_marked_value value done path.name]
  exact replaceAll_fill_iff _ _ (placeholderText_unbordered path) (by simp [placeholderText]) _

/-- The condition of every round: the placeholder stands at its own segments only when
its turn comes, or is replaced by itself. -/
def Separate (segments : List Segment) : List Text → List Path → Prop
  | _, [] => True
  | done, path :: rest =>
      (value path.name = placeholderText path.name ∨
        OnlyMarked (placeholderText path.name) (marked value done path.name segments)) ∧
      Separate segments (path.name :: done) rest

instance decidableSeparate (segments : List Segment) : (done : List Text) → (rest : List Path) →
    Decidable (Separate value segments done rest)
  | _, [] => inferInstanceAs (Decidable True)
  | done, path :: rest =>
      have := decidableSeparate segments (path.name :: done) rest
      inferInstanceAs (Decidable ((value path.name = placeholderText path.name ∨
        OnlyMarked (placeholderText path.name) (marked value done path.name segments)) ∧
        Separate value segments (path.name :: done) rest))

/-- The rounds of some placeholders, when the values are known. -/
def replaceEach (replaced : Text) (placeholders : List Text) : Text :=
  placeholders.foldl (fun replaced name => replaceAll (placeholderText name) (value name) replaced)
    replaced

/-- The first placeholder is replaced before the others. -/
theorem replaceEach_cons (replaced name : Text) (rest : List Text) :
    replaceEach value replaced (name :: rest) =
      replaceEach value (replaceAll (placeholderText name) (value name) replaced) rest := rfl

/-- Every round does what is meant exactly when the condition holds. -/
theorem rounds_iff (segments : List Segment) (done : List Text) (rest : List Path) :
    (∀ k ≤ rest.length,
        replaceEach value (substituted value done segments) ((rest.take k).map Path.name) =
          substituted value (((rest.take k).map Path.name).reverse ++ done) segments) ↔
      Separate value segments done rest := by
  induction rest generalizing done with
  | nil =>
    refine iff_of_true (fun k _ => ?_) trivial
    simp [replaceEach]
  | cons path rest inductionHypothesis =>
    rw [Separate, ← round_iff value done path segments, ← inductionHypothesis]
    constructor
    · intro meant
      have now : replaceAll (placeholderText path.name) (value path.name)
          (substituted value done segments) = substituted value (path.name :: done) segments := by
        simpa [replaceEach] using meant 1 (by simp)
      refine ⟨now, fun k bounded => ?_⟩
      have later := meant (k + 1) (by simpa using bounded)
      simpa only [List.take_succ_cons, List.map_cons, List.reverse_cons, List.append_assoc,
        List.singleton_append, replaceEach_cons, now] using later
    · rintro ⟨now, later⟩ k bounded
      cases k with
      | zero => simp [replaceEach]
      | succ k =>
        have meant := later k (by simpa using bounded)
        simpa only [List.take_succ_cons, List.map_cons, List.reverse_cons, List.append_assoc,
          List.singleton_append, replaceEach_cons, now] using meant

end Rounds

section ReplaceTokens

variable {Message Payload : Type} (codec : Codec Message Payload) (payload : Payload)

/-- The loop replaces the placeholders by the values, if they are all accepted. -/
theorem foldlM_replaceToken (placeholders : List Text) (replaced : Text)
    (accepted : ∀ name ∈ placeholders,
      codec.fieldText payload name = .ok (codec.valueOf payload name)) :
    placeholders.foldlM (codec.replaceToken payload) replaced =
      .ok (replaceEach (codec.valueOf payload) replaced placeholders) := by
  induction placeholders generalizing replaced with
  | nil => rfl
  | cons name rest inductionHypothesis =>
    have now : codec.replaceToken payload replaced name =
        .ok (replaceAll (placeholderText name) (codec.valueOf payload name) replaced) := by
      rw [Codec.replaceToken, accepted name List.mem_cons_self]
    rw [List.foldlM_cons, now, replaceEach_cons]
    exact inductionHypothesis _ fun other inside =>
      accepted other (List.mem_cons_of_mem name inside)

/-- A loop that succeeds accepted all the values. -/
theorem accepted_of_foldlM (placeholders : List Text) (replaced subject : Text)
    (finished : placeholders.foldlM (codec.replaceToken payload) replaced = .ok subject) :
    ∀ name ∈ placeholders, codec.fieldText payload name = .ok (codec.valueOf payload name) := by
  induction placeholders generalizing replaced with
  | nil => nofun
  | cons name rest inductionHypothesis =>
    rw [List.foldlM_cons] at finished
    cases found : codec.fieldText payload name with
    | error err =>
      rw [Codec.replaceToken, found] at finished
      cases finished
    | ok text =>
      rw [Codec.replaceToken, found] at finished
      intro other inside
      rcases List.mem_cons.1 inside with rfl | later
      · rw [found, (fieldText_ok codec payload other text found).1]
      · exact inductionHypothesis _ finished other later

/-- The characters of a subject are those of its tokens, and dots. -/
theorem mem_intercalate_dot (pieces : List Text) (c : Char)
    (inside : c ∈ ['.'].intercalate pieces) : c = '.' ∨ ∃ piece ∈ pieces, c ∈ piece := by
  induction pieces with
  | nil => cases inside
  | cons piece rest inductionHypothesis =>
    cases rest with
    | nil =>
      rw [List.intercalate_singleton] at inside
      exact Or.inr ⟨piece, List.mem_cons_self, inside⟩
    | cons next rest =>
      rw [List.intercalate_cons_cons, List.mem_append, List.mem_append,
        List.mem_singleton] at inside
      rcases inside with (within | dot) | later
      · exact Or.inr ⟨piece, List.mem_cons_self, within⟩
      · exact Or.inl dot
      · obtain dot | ⟨other, listed, within⟩ := inductionHypothesis later
        · exact Or.inl dot
        · exact Or.inr ⟨other, List.mem_cons_of_mem piece listed, within⟩

/-- The substitution depends on which placeholders were replaced only. -/
theorem substituted_congr (value : Text → Text) (done done' : List Text)
    (segments : List Segment) (same : ∀ name, name ∈ done ↔ name ∈ done') :
    substituted value done segments = substituted value done' segments := by
  have each : Segment.substitute value done = Segment.substitute value done' := by
    funext segment
    cases segment <;> simp [Segment.substitute, same]
  rw [substituted, each, substituted]

/-- The names of segments include that of every placeholder among them. -/
theorem mem_names (segments : List Segment) (path : Path)
    (inside : .placeholder path ∈ segments) : path.name ∈ names segments :=
  List.mem_map.2 ⟨path, List.mem_filterMap.2 ⟨_, inside, rfl⟩, rfl⟩

/-- With no placeholder replaced, the segments are as they were written. -/
theorem substituted_nil (value : Text → Text) (segments : List Segment) :
    substituted value [] segments = render segments := by
  have each : Segment.substitute value [] = Segment.text := by
    funext segment
    cases segment <;> simp [Segment.substitute, Segment.text]
  rw [substituted, each, render]

/-- With all placeholders replaced every segment is the token that is meant. -/
theorem substituted_names (value : Text → Text) (segments : List Segment) :
    substituted value (names segments) segments =
      ['.'].intercalate (segments.map (Segment.token value)) := by
  rw [substituted]
  congr 1
  refine List.map_congr_left fun segment inside => ?_
  cases segment with
  | literal fixed => rfl
  | placeholder path => simp [Segment.substitute, Segment.token, mem_names segments path inside]

/-- What a call that succeeds did: it accepted the values and ran the rounds. -/
theorem replaceTokens_ok (segments : List Segment) (m : Message) (subject : Text)
    (replaced : codec.replaceTokens (render segments) m = .ok subject) :
    ∃ payload, codec.payload m = .ok payload ∧
      (∀ name ∈ names segments,
        codec.fieldText payload name = .ok (codec.valueOf payload name)) ∧
      subject = replaceEach (codec.valueOf payload) (render segments) (names segments) := by
  unfold Codec.replaceTokens at replaced
  split at replaced
  · cases replaced
  · next payload decoded =>
    rw [findPlaceholders_render] at replaced
    have accepted := accepted_of_foldlM codec payload _ _ _ replaced
    rw [foldlM_replaceToken codec payload _ _ accepted] at replaced
    exact ⟨payload, decoded, accepted, (Except.ok.inj replaced).symm⟩

/-- Separate rounds give the subject that is meant. -/
theorem replaceEach_of_separate (value : Text → Text) (segments : List Segment)
    (separate : Separate value segments [] (paths segments)) :
    replaceEach value (render segments) (names segments) =
      ['.'].intercalate (segments.map (Segment.token value)) := by
  have rounds := (rounds_iff value segments [] (paths segments)).2 separate _ le_rfl
  rw [List.take_length, substituted_nil] at rounds
  rw [names, rounds, ← substituted_names]
  exact substituted_congr value _ _ segments fun name => by simp [names]

/-- The tokens that are meant have neither a dot nor a wildcard. -/
theorem token_characters (segments : List Segment)
    (accepted : ∀ name ∈ names segments,
      codec.fieldText payload name = .ok (codec.valueOf payload name)) :
    ∀ token ∈ segments.map (Segment.token (codec.valueOf payload)),
      '.' ∉ token ∧ '*' ∉ token ∧ '>' ∉ token := by
  intro token listed
  obtain ⟨segment, inside, rfl⟩ := List.mem_map.1 listed
  cases segment with
  | literal fixed =>
    refine ⟨fun dot => ?_, fun star => ?_, fun greater => ?_⟩
    · exact (fixed.plain _ dot).1 rfl
    · exact (fixed.plain _ star).2.2.1 rfl
    · exact (fixed.plain _ greater).2.2.2 rfl
  | placeholder path =>
    obtain ⟨_, _, valid⟩ := fieldText_ok codec payload _ _ (accepted _ (mem_names _ path inside))
    refine ⟨fun dot => ?_, fun star => ?_, fun greater => ?_⟩
    · exact Bool.noConfusion (valid _ dot)
    · exact Bool.noConfusion (valid _ star)
    · exact Bool.noConfusion (valid _ greater)

/-- After every round the subject has exactly the placeholders so far replaced by the
texts of their own fields if and only if each placeholder stands at its own segments
only when its turn comes, or is replaced by itself. A call that succeeds under this
condition gives every literal segment and every field its own token, and no wildcard. -/
theorem replaceTokens_rounds_iff (segments : List Segment) (nonempty : segments ≠ []) (m : Message)
    (subject : Text) (replaced : codec.replaceTokens (render segments) m = .ok subject) :
    ∃ payload, codec.payload m = .ok payload ∧
      ((∀ k ≤ (paths segments).length,
          ((findPlaceholders (render segments)).take k).foldlM (codec.replaceToken payload)
              (render segments) =
            .ok (substituted (codec.valueOf payload) ((names segments).take k) segments)) ↔
        Separate (codec.valueOf payload) segments [] (paths segments)) ∧
      (Separate (codec.valueOf payload) segments [] (paths segments) →
        subject.splitOn '.' = segments.map (Segment.token (codec.valueOf payload)) ∧
          '*' ∉ subject ∧ '>' ∉ subject) := by
  obtain ⟨payload, decoded, accepted, rfl⟩ := replaceTokens_ok codec segments m subject replaced
  refine ⟨payload, decoded, ?_, fun separate => ?_⟩
  · rw [← rounds_iff]
    refine forall_congr' fun k => imp_congr_right fun _ => ?_
    have prefixes : ∀ name ∈ (names segments).take k,
        codec.fieldText payload name = .ok (codec.valueOf payload name) :=
      fun name inside => accepted name (List.mem_of_mem_take inside)
    rw [findPlaceholders_render, foldlM_replaceToken codec payload _ _ prefixes, Except.ok.injEq,
      substituted_nil, names, ← List.map_take,
      substituted_congr _ (((paths segments).take k).map Path.name)
        ((((paths segments).take k).map Path.name).reverse ++ []) segments (by simp)]
  · have characters := token_characters codec payload segments accepted
    rw [replaceEach_of_separate _ segments separate]
    refine ⟨List.splitOn_intercalate '.' (fun token listed => (characters token listed).1)
      (by simpa using nonempty), fun star => ?_, fun greater => ?_⟩
    · obtain impossible | ⟨token, listed, within⟩ := mem_intercalate_dot _ _ star
      · exact absurd impossible (by decide)
      · exact (characters token listed).2.1 within
    · obtain impossible | ⟨token, listed, within⟩ := mem_intercalate_dot _ _ greater
      · exact absurd impossible (by decide)
      · exact (characters token listed).2.2 within

end ReplaceTokens

section Samples

/-- Messages that are records of named fields. -/
def recordCodec : Codec (Text → Option FieldValue) (Text → Option FieldValue) where
  payload m := .ok m
  message p := .ok p
  get p name :=
    match p name with
    | some value => .ok value
    | none => .error (.plain "key not found")
  set p name value := Function.update p name (some value)

/-- The placeholder of a field. -/
def field (name : String) (nonempty : name.toList ≠ []) (closed : '}' ∉ name.toList) : Segment :=
  .placeholder ⟨name.toList, nonempty, closed⟩

/-- A message with two text fields. -/
def twoFields (a b : Text) (name : Text) : Option FieldValue :=
  if name = ['a'] then some (.string a) else if name = ['b'] then some (.string b) else none

/-- The subject of two fields. -/
def twoSegments : List Segment :=
  [field "a" (by decide) (by decide), field "b" (by decide) (by decide)]

/-- A field that holds the placeholder of another one has its token replaced by the
other field's value. -/
theorem field_value_rewritten :
    recordCodec.replaceTokens (render twoSegments) (twoFields (placeholderText ['b']) ['x']) =
        .ok "x.x".toList ∧
      "x.x".toList.splitOn '.' ≠
        twoSegments.map (Segment.token
          (recordCodec.valueOf (twoFields (placeholderText ['b']) ['x']))) := by
  decide

/-- The condition is about every round. Here the second round puts the placeholder of the
third field together in the token of the first, and the third round happens to undo it. -/
example :
    let value := fun name : Text => if name = ['j'] then ['b', '}'] else "$\x7b$\x7bj\x7d".toList
    let segments := [field "a" (by decide) (by decide), field "j" (by decide) (by decide),
      field "b" (by decide) (by decide)]
    recordCodec.replaceTokens (render segments) (fun name => some (.string (value name))) =
        .ok (['.'].intercalate (segments.map (Segment.token value))) ∧
      ¬ Separate value segments [] (paths segments) := by
  decide

/-- Two fields without placeholders in them have their own tokens. -/
theorem replaceTokens_rounds_iff_two_fields :
    recordCodec.replaceTokens (render twoSegments) (twoFields ['u'] ['x']) = .ok "u.x".toList ∧
      "u.x".toList.splitOn '.' =
        twoSegments.map (Segment.token (recordCodec.valueOf (twoFields ['u'] ['x']))) := by
  have replaced : recordCodec.replaceTokens (render twoSegments) (twoFields ['u'] ['x']) =
      .ok "u.x".toList := by decide
  obtain ⟨payload, decoded, _, meant⟩ := replaceTokens_rounds_iff recordCodec twoSegments (by simp
    [twoSegments]) _ _ replaced
  obtain rfl := Except.ok.inj decoded
  exact ⟨replaced, (meant (by decide)).1⟩

end Samples

end FluffyCore.Nats
