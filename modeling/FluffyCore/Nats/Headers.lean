import FluffyCore.Status
import FluffyCore.Library.MapLoop

/-!
# The identity of a NATS caller

A client sends its outgoing gRPC metadata as NATS headers, with its own token under
"Authorization". Header keys are case-sensitive, so that value does not replace one
the metadata holds under "authorization". The server keeps the first value of each
header and files the headers under their lower-case keys. There the two values meet.
-/

namespace FluffyCore.Nats

open Library.MapLoop

/-- gRPC metadata: values by lower-case key. -/
abbrev Metadata := FiniteMap String (List String)

/-- NATS headers: values by case-sensitive key. -/
abbrev Header := FiniteMap String (List String)

/-- `wellknown.HeaderAuthorization`. -/
def headerAuthorization : String := "Authorization"

/-- `wellknown.MetadataKeyAuthorization`. -/
def metadataKeyAuthorization : String := "authorization"

/-- `wellknown.AuthSchemeBearerPrefix`. -/
def authSchemeBearerPrefix : String := "Bearer "

/-- What a context holds for the client: the outgoing metadata, if there is any. -/
abbrev Context := Option Metadata

/-- The parts of a client its request headers depend on. The token source answers with
an access token or an error. -/
structure NATSClient where
  tokenSource : Option (Except GoError String)
  ctxModifiers : List (Context → Except GoError Context)

/-- The context modifiers one after the other, up to the first error. -/
def NATSClient.modify (client : NATSClient) (ctx : Context) : Except GoError Context :=
  client.ctxModifiers.foldlM (fun ctx modifier => modifier ctx) ctx

/-- The loop that copies the metadata to the headers. -/
def copyMetadata (md : Metadata) : Header :=
  updateEach (fun key _ => md.lookup key) md.keys ∅

/-- `nats.Header.Set`. -/
def headerSet (headers : Header) (key value : String) : Header :=
  headers.insert key [value]

def NATSClient.createNATSRequestHeaders (client : NATSClient) (ctx : Context) :
    Except GoError Header :=
  match client.modify ctx with
  | .error err => .error err
  | .ok ctx =>
      let headers := copyMetadata (ctx.getD ∅)
      match client.tokenSource with
      | none => .ok headers
      | some (.error err) => .error err
      | some (.ok accessToken) =>
          .ok (headerSet headers headerAuthorization (authSchemeBearerPrefix ++ accessToken))

/-- The first value of each key that has one. -/
def convertToStringMap (headers : Header) : FiniteMap String String :=
  updateEach (fun key current =>
    match headers.lookup key with
    | some (value :: _) => some value
    | _ => current) headers.keys ∅

/-- `metadata.New`: keys that differ only in case share their values. -/
def metadataNew (toLower : String → String) (m : FiniteMap String String) (order : List String) :
    Metadata :=
  appendEach toLower (fun key => (m.lookup key).getD "") order ∅

/-- The metadata `HandleRequest` gives to the service method, when `metadata.New` visits
the flattened headers in some order. -/
def requestMetadata (toLower : String → String) (headers : Header) (order : List String) :
    Metadata :=
  metadataNew toLower (convertToStringMap headers) order

/-- `MD.Get` for a key in lower case. -/
def values (md : Metadata) (key : String) : List String := (md.lookup key).getD []

/-- The copy of the metadata has what the metadata has. -/
theorem copyMetadata_eq (md : Metadata) : copyMetadata md = md := by
  apply Finmap.ext_lookup
  intro key
  rw [copyMetadata, lookup_updateEach]
  split
  · rfl
  · next absent =>
    rw [Finmap.lookup_empty, eq_comm, Finmap.lookup_eq_none]
    exact fun inside => absent (Finmap.mem_keys.2 inside)

/-- The map has the first value of every header, and no key for a header without values. -/
theorem lookup_convertToStringMap (headers : Header) (key : String) :
    (convertToStringMap headers).lookup key = (headers.lookup key).bind List.head? := by
  rw [convertToStringMap, lookup_updateEach]
  split
  · cases headers.lookup key with
    | none => rfl
    | some listed => cases listed <;> rfl
  · next absent =>
    have missing : headers.lookup key = none :=
      Finmap.lookup_eq_none.2 fun inside => absent (Finmap.mem_keys.2 inside)
    simp [missing]

/-- The headers of a client with a token source: the metadata and the token. -/
theorem createNATSRequestHeaders_eq (client : NATSClient) (ctx ctx' : Context)
    (accessToken : String) (hasToken : client.tokenSource = some (.ok accessToken))
    (modified : client.modify ctx = .ok ctx') :
    client.createNATSRequestHeaders ctx =
      .ok (headerSet (ctx'.getD ∅) headerAuthorization
        (authSchemeBearerPrefix ++ accessToken)) := by
  simp only [NATSClient.createNATSRequestHeaders, modified, hasToken, copyMetadata_eq]

section Arrival

variable (toLower : String → String) (md : Metadata) (identity : String)

/-- What the flattened headers hold under a key. -/
theorem lookup_flattened (key : String) :
    (convertToStringMap (headerSet md headerAuthorization identity)).lookup key =
      if key = headerAuthorization then some identity else (values md key).head? := by
  rw [lookup_convertToStringMap, headerSet]
  split
  · next same =>
    subst same
    rw [Finmap.lookup_insert]
    rfl
  · next other =>
    rw [Finmap.lookup_insert_of_ne _ other, values]
    cases md.lookup key <;> rfl

/-- The keys a loop over the flattened headers visits. -/
theorem mem_flattened_order (order : List String)
    (visits : IterationOrder (convertToStringMap (headerSet md headerAuthorization identity)) order)
    (key : String) : key ∈ order ↔ key = headerAuthorization ∨ values md key ≠ [] := by
  rw [visits.2, ← Finmap.lookup_isSome, lookup_flattened]
  by_cases same : key = headerAuthorization
  · simp [same]
  · cases held : values md key <;> simp [same]

variable (lowersHeader : toLower headerAuthorization = metadataKeyAuthorization)
  (lowerKeys : ∀ key ∈ md, toLower key = key) (order : List String)
  (visits : IterationOrder (convertToStringMap (headerSet md headerAuthorization identity)) order)

/-- A key with values is a key of the metadata. -/
theorem mem_of_values {md : Metadata} {key : String} (held : values md key ≠ []) : key ∈ md := by
  by_contra absent
  exact held (by rw [values, Finmap.lookup_eq_none.2 absent]; rfl)

include lowersHeader lowerKeys visits

/-- The visited keys that are filed under a key: the key itself and the client's own
header under "authorization". -/
theorem filed_under (key visited : String) :
    visited ∈ order ∧ toLower visited = key ↔
      (visited = headerAuthorization ∧ key = metadataKeyAuthorization) ∨
        (visited = key ∧ values md key ≠ []) := by
  rw [mem_flattened_order md identity order visits]
  constructor
  · rintro ⟨rfl | held, filed⟩
    · exact Or.inl ⟨rfl, filed.symm.trans lowersHeader⟩
    · obtain rfl : visited = key := (lowerKeys visited (mem_of_values held)).symm.trans filed
      exact Or.inr ⟨rfl, held⟩
  · rintro (⟨rfl, rfl⟩ | ⟨rfl, held⟩)
    · exact ⟨Or.inl rfl, lowersHeader⟩
    · exact ⟨Or.inr held, lowerKeys visited (mem_of_values held)⟩

/-- A key of the metadata with one value arrives with that value. -/
theorem value_arrives (key value : String) (other : key ≠ metadataKeyAuthorization)
    (held : values md key = [value]) :
    values (requestMetadata toLower (headerSet md headerAuthorization identity) order) key =
      [value] := by
  have holds : values md key ≠ [] := by simp [held]
  have notHeader : key ≠ headerAuthorization := by
    rintro rfl
    exact other ((lowerKeys _ (mem_of_values holds)).symm.trans lowersHeader)
  have alone : order.filter (toLower · = key) = [key] := by
    refine filter_eq_singleton order visits.1 _ key fun visited => ?_
    rw [decide_eq_true_iff, filed_under toLower md identity lowersHeader lowerKeys order visits]
    simp [other, holds]
  rw [values, requestMetadata, metadataNew, lookup_appendEach, alone]
  simp [lookup_flattened, notHeader, held]

/-- The client's identity arrives alone if and only if the metadata names none. -/
theorem identity_alone_iff :
    values (requestMetadata toLower (headerSet md headerAuthorization identity) order)
        metadataKeyAuthorization = [identity] ↔
      values md metadataKeyAuthorization = [] := by
  have filed := filed_under toLower md identity lowersHeader lowerKeys order visits
    metadataKeyAuthorization
  rw [values, requestMetadata, metadataNew, lookup_appendEach]
  constructor
  · intro arrives
    by_contra named
    have distinct : headerAuthorization ≠ metadataKeyAuthorization := by decide
    have inside : ∀ visited, visited = headerAuthorization ∨ visited = metadataKeyAuthorization →
        visited ∈ order.filter (toLower · = metadataKeyAuthorization) := by
      intro visited either
      rw [List.mem_filter, decide_eq_true_iff, filed]
      exact either.imp (fun same => ⟨same, rfl⟩) (fun same => ⟨same, named⟩)
    have both : [headerAuthorization, metadataKeyAuthorization].length ≤
        (order.filter (toLower · = metadataKeyAuthorization)).length := by
      refine (List.subperm_of_subset (by simp [distinct]) fun visited listed => ?_).length_le
      exact inside visited (by simpa using listed)
    have one := congrArg List.length arrives
    simp only [Finmap.lookup_empty, Option.getD_none, List.nil_append, List.length_map,
      List.length_cons, List.length_nil] at one both
    omega
  · intro unnamed
    have alone : order.filter (toLower · = metadataKeyAuthorization) = [headerAuthorization] := by
      refine filter_eq_singleton order visits.1 _ headerAuthorization fun visited => ?_
      rw [decide_eq_true_iff, filed]
      simp [unnamed]
    rw [alone]
    simp [lookup_flattened]

end Arrival

/-- The service method is given the client's token as the only authorization if and
only if the outgoing metadata holds none, in every order of the loops. Every other key
with one value arrives with that value. -/
theorem identity_arrives_iff (toLower : String → String)
    (lowersHeader : toLower headerAuthorization = metadataKeyAuthorization) (client : NATSClient)
    (ctx ctx' : Context) (accessToken : String)
    (hasToken : client.tokenSource = some (.ok accessToken))
    (modified : client.modify ctx = .ok ctx')
    (lowerKeys : ∀ key ∈ ctx'.getD ∅, toLower key = key) :
    ∃ headers, client.createNATSRequestHeaders ctx = .ok headers ∧
      ∀ order, IterationOrder (convertToStringMap headers) order →
        (values (requestMetadata toLower headers order) metadataKeyAuthorization =
            [authSchemeBearerPrefix ++ accessToken] ↔
          values (ctx'.getD ∅) metadataKeyAuthorization = []) ∧
        ∀ key value, key ≠ metadataKeyAuthorization → values (ctx'.getD ∅) key = [value] →
          values (requestMetadata toLower headers order) key = [value] := by
  refine ⟨_, createNATSRequestHeaders_eq client ctx ctx' accessToken hasToken modified,
    fun order visits => ⟨?_, fun key value other held => ?_⟩⟩
  · exact identity_alone_iff toLower _ _ lowersHeader lowerKeys order visits
  · exact value_arrives toLower _ _ lowersHeader lowerKeys order visits key value other held

section Samples

/-- Lower case as far as header keys go. -/
def asciiToLower (key : String) : String := String.ofList (key.toList.map Char.toLower)

/-- A client with the access token "mine". -/
def sampleClient : NATSClient := ⟨some (.ok "mine"), []⟩

/-- Metadata with one value under a key. -/
def oneValue (key value : String) : Metadata := (∅ : Metadata).insert key [value]

/-- One pair has its value under its own key and nothing under the others. -/
theorem values_oneValue (key value tested : String) :
    values (oneValue key value) tested = if tested = key then [value] else [] := by
  by_cases same : tested = key
  · subst same
    simp [values, oneValue]
  · simp [values, oneValue, same, Finmap.lookup_insert_of_ne]

/-- One pair with a lower case key has lower case keys. -/
theorem lower_oneValue (toLower : String → String) (key value : String)
    (lower : toLower key = key) : ∀ tested ∈ oneValue key value, toLower tested = tested := by
  intro tested inside
  rw [oneValue, Finmap.mem_insert, or_iff_left Finmap.notMem_empty] at inside
  rw [inside, lower]

/-- A value of the caller's metadata reaches the service before the client's token. -/
theorem caller_value_arrives_first :
    (∀ key ∈ oneValue "authorization" "Bearer other", asciiToLower key = key) ∧
      ∃ headers order,
        sampleClient.createNATSRequestHeaders (some (oneValue "authorization" "Bearer other")) =
          .ok headers ∧
        IterationOrder (convertToStringMap headers) order ∧
        values (requestMetadata asciiToLower headers order) "authorization" =
          ["Bearer other", "Bearer mine"] := by
  refine ⟨lower_oneValue _ _ _ (by decide), _, ["authorization", "Authorization"],
    createNATSRequestHeaders_eq _ _ _ "mine" rfl rfl, ⟨by decide, fun key => ?_⟩, by decide⟩
  rw [← Finmap.lookup_isSome, lookup_flattened, Option.getD_some, values_oneValue]
  by_cases header : key = headerAuthorization
  · simp [header, headerAuthorization]
  · by_cases named : key = "authorization"
    · simp [named, headerAuthorization]
    · simp [headerAuthorization] at header
      simp [headerAuthorization, header, named]

/-- Metadata without an authorization leaves the client's token alone. -/
theorem identity_arrives_iff_correlation :
    ∃ headers, sampleClient.createNATSRequestHeaders (some (oneValue "x-correlation-id" "c1")) =
        .ok headers ∧
      ∀ order, IterationOrder (convertToStringMap headers) order →
        values (requestMetadata asciiToLower headers order) "authorization" = ["Bearer mine"] ∧
        values (requestMetadata asciiToLower headers order) "x-correlation-id" = ["c1"] := by
  obtain ⟨headers, sent, arrives⟩ := identity_arrives_iff asciiToLower (by decide) sampleClient
    (some (oneValue "x-correlation-id" "c1")) _ "mine" rfl rfl (lower_oneValue _ _ _ (by decide))
  refine ⟨headers, sent, fun order visits => ?_⟩
  obtain ⟨identity, others⟩ := arrives order visits
  exact ⟨identity.2 (by decide), others _ _ (by decide) (by decide)⟩

end Samples

end FluffyCore.Nats
