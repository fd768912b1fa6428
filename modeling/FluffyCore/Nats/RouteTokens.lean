import FluffyCore.Nats.RouteParams

/-!
# How the server splits subjects

The parameterized subject falls into the words of its literal segments and its
placeholders. These are its segments when the literal ones consist of word
characters. The subject of a request falls into its tokens exactly when the braces
are balanced in each token but the last.
-/

namespace FluffyCore.Nats

open Library.MapLoop Library.Replacement

section Nesting

/-- How far the braces of a text open more than they close. -/
def braceDepth (text : Text) : Int := text.count '{' - text.count '}'

/-- A text without dots joins the current token. -/
theorem foldl_next_of_no_dot (text : Text) (noDot : '.' ∉ text) (state : Nesting) :
    text.foldl Nesting.next state =
      ⟨state.tokens, state.currentToken ++ text, state.depth + braceDepth text⟩ := by
  induction text generalizing state with
  | nil => simp [braceDepth]
  | cons c rest inductionHypothesis =>
    rw [List.mem_cons, not_or] at noDot
    have other : c ≠ '.' := Ne.symm noDot.1
    have written : state.next c = state.write c (state.depth + braceDepth [c]) := by
      unfold Nesting.next
      rw [if_neg fun dot => other dot.1]
      by_cases opens : c = '{'
      · subst opens
        rfl
      · by_cases closes : c = '}'
        · subst closes
          rfl
        · simp [opens, closes, braceDepth]
    have split : braceDepth (c :: rest) = braceDepth [c] + braceDepth rest := by
      simp only [braceDepth, List.count_cons, List.count_nil]
      push_cast
      ring
    rw [List.foldl_cons, inductionHypothesis noDot.2, written, split]
    simp [Nesting.write, add_assoc]

/-- A round closes the current token or writes to it, whatever was found before. -/
theorem next_cases (r : Char) (currentToken : Text) (depth : Int) :
    (∀ tokens, (⟨tokens, currentToken, depth⟩ : Nesting).next r =
        (⟨tokens, currentToken, depth⟩ : Nesting).flush) ∨
      ∃ depth', ∀ tokens, (⟨tokens, currentToken, depth⟩ : Nesting).next r =
        ⟨tokens, currentToken ++ [r], depth'⟩ := by
  unfold Nesting.next
  by_cases dot : r = '.' ∧ depth = 0
  · exact Or.inl fun tokens => if_pos dot
  · simp only [dot, if_false]
    by_cases opens : r = '{'
    · exact Or.inr ⟨depth + 1, fun tokens => if_pos opens⟩
    · by_cases closes : r = '}'
      · exact Or.inr ⟨depth - 1, fun tokens => by rw [if_neg opens, if_pos closes]; rfl⟩
      · exact Or.inr ⟨depth, fun tokens => by rw [if_neg opens, if_neg closes]; rfl⟩

/-- A token that has not begun is not added. -/
theorem flush_empty (tokens : List Text) (depth : Int) :
    (⟨tokens, [], depth⟩ : Nesting).flush = ⟨tokens, [], depth⟩ := rfl

/-- A token that has begun is added, and the next one begins. -/
theorem flush_begun (tokens : List Text) (currentToken : Text) (begun : currentToken ≠ [])
    (depth : Int) : (⟨tokens, currentToken, depth⟩ : Nesting).flush =
      ⟨tokens ++ [currentToken], [], depth⟩ := by
  simp [Nesting.flush, begun]

/-- The tokens found so far stay in front. -/
theorem tokens_append (text : Text) (tokenized : List Text) (currentToken : Text) (depth : Int) :
    (text.foldl Nesting.next ⟨tokenized, currentToken, depth⟩).flush.tokens =
      tokenized ++ (text.foldl Nesting.next ⟨[], currentToken, depth⟩).flush.tokens := by
  induction text generalizing tokenized currentToken depth with
  | nil =>
    by_cases empty : currentToken = []
    · simp [empty, flush_empty]
    · simp [flush_begun _ _ empty]
  | cons r rest inductionHypothesis =>
    rw [List.foldl_cons, List.foldl_cons]
    rcases next_cases r currentToken depth with closes | ⟨depth', writes⟩
    · rw [closes, closes]
      by_cases empty : currentToken = []
      · subst empty
        exact inductionHypothesis tokenized [] depth
      · rw [flush_begun _ _ empty, flush_begun _ _ empty, inductionHypothesis,
          inductionHypothesis ([] ++ [currentToken]), List.nil_append, List.append_assoc]
    · rw [writes, writes]
      exact inductionHypothesis tokenized _ depth'

/-- A token that has begun is part of the next token found. -/
theorem tokens_of_current (text : Text) (currentToken : Text) (begun : currentToken ≠ [])
    (depth : Int) :
    ∃ more others, (text.foldl Nesting.next ⟨[], currentToken, depth⟩).flush.tokens =
      (currentToken ++ more) :: others := by
  induction text generalizing currentToken depth with
  | nil => exact ⟨[], [], by simp [flush_begun _ _ begun]⟩
  | cons r rest inductionHypothesis =>
    rw [List.foldl_cons]
    rcases next_cases r currentToken depth with closes | ⟨depth', writes⟩
    · rw [closes, flush_begun _ _ begun, tokens_append]
      exact ⟨[], _, by rw [List.append_nil]; rfl⟩
    · obtain ⟨more, others, found⟩ := inductionHypothesis (currentToken ++ [r]) (by simp) depth'
      rw [writes, found]
      exact ⟨r :: more, others, by simp⟩

/-- A text that may stand between two dots. -/
def Undotted (token : Text) : Prop := token ≠ [] ∧ '.' ∉ token

/-- A token with balanced braces is split off. -/
theorem tokenize_cons_of_balanced (token : Text) (rest : List Text) (valid : Undotted token)
    (balanced : braceDepth token = 0) :
    tokenizeRouteWithNesting (['.'].intercalate (token :: rest)) =
      token :: tokenizeRouteWithNesting (['.'].intercalate rest) := by
  unfold tokenizeRouteWithNesting
  cases rest with
  | nil =>
    rw [List.intercalate_singleton, foldl_next_of_no_dot token valid.2]
    simp [Nesting.flush, valid.1]
  | cons next rest =>
    have atDot : (⟨[], token, 0⟩ : Nesting).next '.' = ⟨[token], [], 0⟩ := by
      simp [Nesting.next, Nesting.flush, valid.1]
    rw [List.intercalate_cons_cons, List.append_assoc, List.foldl_append,
      foldl_next_of_no_dot token valid.2, List.foldl_append]
    simp only [List.nil_append, balanced, add_zero, List.foldl_cons, List.foldl_nil, atDot]
    exact tokens_append _ [token] [] 0

/-- The first token found is the first token of the subject, or it holds a dot and the
braces of the first token are not balanced. -/
theorem tokenize_cons (token : Text) (rest : List Text) (valid : Undotted token) :
    ∃ first others, tokenizeRouteWithNesting (['.'].intercalate (token :: rest)) = first :: others ∧
      (('.' ∈ first ∧ braceDepth token ≠ 0 ∧ rest ≠ []) ∨
        (first = token ∧ others = tokenizeRouteWithNesting (['.'].intercalate rest) ∧
          (rest ≠ [] → braceDepth token = 0))) := by
  by_cases balanced : braceDepth token = 0
  · exact ⟨_, _, tokenize_cons_of_balanced token rest valid balanced,
      Or.inr ⟨rfl, rfl, fun _ => balanced⟩⟩
  · cases rest with
    | nil =>
      refine ⟨token, [], ?_, Or.inr ⟨rfl, rfl, fun more => absurd rfl more⟩⟩
      rw [tokenizeRouteWithNesting, List.intercalate_singleton, foldl_next_of_no_dot token valid.2]
      simp [Nesting.flush, valid.1]
    | cons next rest =>
      have atDot : (⟨[], token, braceDepth token⟩ : Nesting).next '.' =
          ⟨[], token ++ ['.'], braceDepth token⟩ := by
        simp [Nesting.next, balanced, Nesting.write]
      obtain ⟨more, others, found⟩ := tokens_of_current (['.'].intercalate (next :: rest))
        (token ++ ['.']) (by simp) (braceDepth token)
      refine ⟨token ++ ['.'] ++ more, others, ?_, Or.inl ⟨by simp, balanced, by simp⟩⟩
      rw [tokenizeRouteWithNesting, List.intercalate_cons_cons, List.append_assoc,
        List.foldl_append, foldl_next_of_no_dot token valid.2, List.foldl_append]
      simp only [List.nil_append, zero_add, List.foldl_cons, List.foldl_nil, atDot]
      exact found

/-- The server splits a subject into its tokens exactly when the braces are balanced in
each token but the last. -/
theorem tokenize_eq_iff (tokens : List Text) (valid : ∀ token ∈ tokens, Undotted token) :
    tokenizeRouteWithNesting (['.'].intercalate tokens) = tokens ↔
      ∀ token ∈ tokens.dropLast, braceDepth token = 0 := by
  induction tokens with
  | nil => exact iff_of_true rfl nofun
  | cons token rest inductionHypothesis =>
    have valid' := valid token List.mem_cons_self
    have rests := inductionHypothesis fun other listed =>
      valid other (List.mem_cons_of_mem token listed)
    obtain ⟨first, others, found, merged | ⟨rfl, rfl, balanced⟩⟩ := tokenize_cons token rest valid'
    · obtain ⟨dot, unbalanced, more⟩ := merged
      refine iff_of_false (fun split => ?_) fun balanced => unbalanced (balanced token ?_)
      · rw [found] at split
        exact valid'.2 ((List.cons.inj split).1 ▸ dot)
      · obtain ⟨next, rest, rfl⟩ := List.exists_cons_of_ne_nil more
        simp
    · rw [found, List.cons.injEq, and_iff_right rfl, rests]
      cases rest with
      | nil => simp
      | cons next rest => simp [balanced (by simp)]

end Nesting

section Words

/-- Skipping characters is parsing what comes after them. -/
theorem parseTokensFrom_skip (skip : Nat) (text : Text) :
    parseTokensFrom skip text = parseTokens (text.drop skip) := by
  induction text generalizing skip with
  | nil => cases skip <;> simp [parseTokens, parseTokensFrom]
  | cons c rest inductionHypothesis =>
    cases skip with
    | zero => rfl
    | succ skip => simpa [parseTokensFrom] using inductionHypothesis skip

/-- A placeholder at the front is a token. -/
theorem parseTokens_placeholder (path : Path) (rest : Text) :
    parseTokens (placeholderText path.name ++ rest) =
      placeholderText path.name :: parseTokens rest := by
  have found := matchPlaceholder_placeholder path rest
  have notWord : wordChar '$' = false := by decide
  simp only [placeholderText, List.cons_append] at found ⊢
  rw [parseTokens, parseTokensFrom, if_neg (by simp [notWord]), found]
  simp only [parseTokensFrom_skip]
  simp [placeholderText]

/-- A character that belongs to no token is skipped. -/
theorem parseTokens_cons (c : Char) (rest : Text) (notWord : wordChar c = false) (other : c ≠ '$') :
    parseTokens (c :: rest) = parseTokens rest := by
  rw [parseTokens, parseTokensFrom, if_neg (by simp [notWord]), matchPlaceholder_of_ne c rest other]
  rfl

/-- A text that does not go on with a word character. -/
def EndsWord (rest : Text) : Prop := ∀ c ∈ rest.head?, wordChar c = false

/-- A whole word at the front is a token. -/
theorem parseTokens_word (word rest : Text) (nonempty : word ≠ []) (isWord : ∀ c ∈ word, wordChar c)
    (ends : EndsWord rest) : parseTokens (word ++ rest) = word :: parseTokens rest := by
  obtain ⟨c, tail, rfl⟩ := List.exists_cons_of_ne_nil nonempty
  have stops : rest.takeWhile wordChar = [] := by
    cases rest with
    | nil => rfl
    | cons d rest => simp [ends d rfl]
  have taken : (tail ++ rest).takeWhile wordChar = tail := by
    rw [List.takeWhile_append_of_pos fun d inside => isWord d (List.mem_cons_of_mem c inside), stops,
      List.append_nil]
  rw [List.cons_append, parseTokens, parseTokensFrom, if_pos (isWord c List.mem_cons_self)]
  simp only [taken, parseTokensFrom_skip]
  simp

/-- A text without placeholders is a word and a shorter rest, or starts with a character
of no word. -/
theorem word_cases (text : Text) :
    text = [] ∨
      (∃ c rest, text = c :: rest ∧ wordChar c = false) ∨
        ∃ word rest, text = word ++ rest ∧ word ≠ [] ∧ (∀ c ∈ word, wordChar c) ∧
          EndsWord rest := by
  cases text with
  | nil => exact Or.inl rfl
  | cons c rest =>
    right
    cases isWord : wordChar c with
    | false => exact Or.inl ⟨c, rest, rfl, isWord⟩
    | true =>
      refine Or.inr ⟨(c :: rest).takeWhile wordChar, (c :: rest).dropWhile wordChar,
        List.takeWhile_append_dropWhile.symm, by simp [isWord], ?_, ?_⟩
      · intro d inside
        exact List.all_eq_true.1 List.all_takeWhile d inside
      · intro d first
        have stops := List.head?_dropWhile_not wordChar (c :: rest)
        rw [Option.mem_def.1 first] at stops
        simpa using stops

/-- Induction along the words of a text. -/
@[elab_as_elim]
theorem word_induction {motive : Text → Prop} (nil : motive [])
    (char : ∀ c rest, wordChar c = false → motive rest → motive (c :: rest))
    (word : ∀ word rest, word ≠ [] → (∀ c ∈ word, wordChar c) → EndsWord rest → motive rest →
      motive (word ++ rest))
    (text : Text) : motive text := by
  induction length : text.length using Nat.strong_induction_on generalizing text with
  | _ n inductionHypothesis =>
    subst length
    rcases word_cases text with
      rfl | ⟨c, after, rfl, notWord⟩ | ⟨first, after, rfl, nonempty, isWord, stops⟩
    · exact nil
    · exact char c after notWord (inductionHypothesis _ (Nat.lt_succ_self _) after rfl)
    · have shorter : after.length < (first ++ after).length := by
        have := List.length_pos_of_ne_nil nonempty
        rw [List.length_append]
        omega
      exact word first after nonempty isWord stops (inductionHypothesis _ shorter after rfl)

/-- The tokens of a text without placeholders and those of what follows it. -/
theorem parseTokens_append (text rest : Text) (plain : '$' ∉ text) (ends : EndsWord rest) :
    parseTokens (text ++ rest) = parseTokens text ++ parseTokens rest := by
  induction text using word_induction with
  | nil => rfl
  | char c after notWord inductionHypothesis =>
    rw [List.mem_cons, not_or] at plain
    rw [List.cons_append, parseTokens_cons c _ notWord (Ne.symm plain.1),
      parseTokens_cons c _ notWord (Ne.symm plain.1), inductionHypothesis plain.2]
  | word word after nonempty isWord stops inductionHypothesis =>
    have stops' : EndsWord (after ++ rest) := by
      cases after with
      | nil => exact ends
      | cons c after => exact stops
    have plain' : '$' ∉ after := fun inside => plain (List.mem_append_right word inside)
    rw [List.append_assoc, parseTokens_word word _ nonempty isWord stops',
      parseTokens_word word _ nonempty isWord stops, inductionHypothesis plain',
      List.cons_append]

/-- The tokens of a text without placeholders are made of its word characters. -/
theorem flatten_parseTokens (text : Text) (plain : '$' ∉ text) :
    (parseTokens text).flatten = text.filter wordChar := by
  induction text using word_induction with
  | nil => rfl
  | char c after notWord inductionHypothesis =>
    rw [List.mem_cons, not_or] at plain
    rw [parseTokens_cons c _ notWord (Ne.symm plain.1), inductionHypothesis plain.2,
      List.filter_cons_of_neg (by simp [notWord])]
  | word word after nonempty isWord stops inductionHypothesis =>
    have plain' : '$' ∉ after := fun inside => plain (List.mem_append_right word inside)
    rw [parseTokens_word word after nonempty isWord stops, List.flatten_cons,
      inductionHypothesis plain', List.filter_append, List.filter_eq_self.2 isWord]

/-- A literal segment of word characters. -/
def Segment.IsWord : Segment → Prop
  | .literal fixed => ∀ c ∈ fixed.text, wordChar c
  | .placeholder _ => True

/-- The tokens the server finds in a segment. -/
def Segment.pieces : Segment → List Text
  | .literal fixed => parseTokens fixed.text
  | .placeholder path => [placeholderText path.name]

/-- The tokens of a segment come before those of what follows, where no word goes on. -/
theorem parseTokens_segment (segment : Segment) (rest : Text) (ends : EndsWord rest) :
    parseTokens (segment.text ++ rest) = segment.pieces ++ parseTokens rest := by
  cases segment with
  | literal fixed => exact parseTokens_append fixed.text rest fixed.no_dollar ends
  | placeholder path => exact parseTokens_placeholder path rest

/-- A parameterized subject falls into the tokens of its segments. -/
theorem parseTokens_render (segments : List Segment) :
    parseTokens (render segments) = segments.flatMap Segment.pieces := by
  unfold render
  induction segments with
  | nil => rfl
  | cons segment rest inductionHypothesis =>
    cases rest with
    | nil =>
      have alone := parseTokens_segment segment [] nofun
      rw [List.append_nil] at alone
      rw [List.map_singleton, List.intercalate_singleton, alone]
      simp [parseTokens, parseTokensFrom]
    | cons next rest =>
      have dot : EndsWord ('.' :: ['.'].intercalate ((next :: rest).map Segment.text)) := by
        rintro c ⟨⟩
        decide
      rw [List.flatMap_cons, ← inductionHypothesis, List.map_cons, List.map_cons,
        List.intercalate_cons_cons, List.append_assoc, List.singleton_append, ← List.map_cons,
        parseTokens_segment segment _ dot, parseTokens_cons '.' _ (by decide) (by decide)]

/-- A word is its own token. -/
theorem Segment.IsWord.pieces {segment : Segment} (isWord : segment.IsWord)
    (nonempty : segment.text ≠ []) : segment.pieces = [segment.text] := by
  cases segment with
  | literal fixed =>
    have parsed := parseTokens_word fixed.text [] nonempty isWord nofun
    rw [List.append_nil] at parsed
    exact parsed
  | placeholder path => rfl

/-- A parameterized subject whose literal segments are words falls into its segments. -/
theorem parseTokens_of_words (segments : List Segment)
    (nonempty : ∀ segment ∈ segments, segment.text ≠ [])
    (words : ∀ segment ∈ segments, segment.IsWord) :
    parseTokens (render segments) = segments.map Segment.text := by
  rw [parseTokens_render, List.flatMap_def, List.map_congr_left fun segment listed =>
    (words segment listed).pieces (nonempty segment listed), ← List.flatMap_def,
    List.map_eq_flatMap]

/-- The tokens found in a literal segment consist of its word characters. -/
theorem word_of_parseTokens (text : Text) (plain : '$' ∉ text) (word : Text)
    (found : word ∈ parseTokens text) : ∀ c ∈ word, c ∈ text ∧ wordChar c := by
  intro c inside
  have flat : c ∈ (parseTokens text).flatten := List.mem_flatten.2 ⟨word, found, inside⟩
  rw [flatten_parseTokens text plain] at flat
  exact List.mem_filter.1 flat

/-- A literal segment without tokens has no word characters. -/
theorem wordless_of_parseTokens (text : Text) (plain : '$' ∉ text) (none : parseTokens text = []) :
    ∀ c ∈ text, wordChar c = false := by
  intro c inside
  have flat := flatten_parseTokens text plain
  rw [none, List.flatten_nil, eq_comm, List.filter_eq_nil_iff] at flat
  simpa using flat c inside

end Words

end FluffyCore.Nats
