import FluffyCore.Library.MapLoop

/-!
# The claims principal

A principal holds claims, pairs of a type and a value. It keeps them twice: as a
list of values per type, and as a set of values per type for the membership test.
The structure carries the proof that the two agree, so a principal whose
membership test disagrees with what it lists cannot be built.
-/

namespace FluffyCore.Auth

open Library.MapLoop

structure Claim where
  type : String
  value : String
deriving DecidableEq

/-- The two maps of a principal. No type has an empty list, no value is listed twice
and the empty type is never used. -/
structure ClaimsPrincipal where
  claims : FiniteMap String (List String)
  fastMap : FiniteMap String (Finset String)
  agree : ∀ type, fastMap.lookup type = (claims.lookup type).map List.toFinset
  distinct : ∀ type values, claims.lookup type = some values → values.Nodup ∧ values ≠ []
  typed : claims.lookup "" = none

namespace ClaimsPrincipal

/-- `NewIClaimsPrincipal`. -/
def empty : ClaimsPrincipal where
  claims := ∅
  fastMap := ∅
  agree _ := rfl
  distinct := nofun
  typed := rfl

/-- A claim the principal lists. -/
def Holds (p : ClaimsPrincipal) (c : Claim) : Prop :=
  ∃ values, p.claims.lookup c.type = some values ∧ c.value ∈ values

/-- `HasClaim`, answered from the set of values. -/
def hasClaim (p : ClaimsPrincipal) (c : Claim) : Bool :=
  match p.fastMap.lookup c.type with
  | some values => decide (c.value ∈ values)
  | none => false

/-- The membership test answers what is listed. -/
theorem hasClaim_iff (p : ClaimsPrincipal) (c : Claim) : p.hasClaim c = true ↔ p.Holds c := by
  unfold hasClaim Holds
  rw [p.agree]
  cases p.claims.lookup c.type <;> simp

/-- The values listed under a type, none when the type is absent. -/
def values (p : ClaimsPrincipal) (type : String) : List String :=
  (p.claims.lookup type).getD []

/-- List one more value. The two maps are extended together. -/
def append (p : ClaimsPrincipal) (c : Claim) (typed : c.type ≠ "") (fresh : ¬ p.Holds c) :
    ClaimsPrincipal where
  claims := p.claims.insert c.type (p.values c.type ++ [c.value])
  fastMap := p.fastMap.insert c.type (insert c.value ((p.fastMap.lookup c.type).getD ∅))
  agree type := by
    by_cases same : type = c.type
    · subst type
      rw [Finmap.lookup_insert, Finmap.lookup_insert, p.agree, values]
      cases p.claims.lookup c.type with
      | none => simp
      | some values => simp [List.toFinset_append]
    · rw [Finmap.lookup_insert_of_ne _ same, Finmap.lookup_insert_of_ne _ same, p.agree]
  distinct type values listed := by
    by_cases same : type = c.type
    · subst type
      rw [Finmap.lookup_insert] at listed
      obtain rfl := Option.some.inj listed
      refine ⟨?_, by simp⟩
      unfold ClaimsPrincipal.values
      cases before : p.claims.lookup c.type with
      | none => simp
      | some old =>
        have absent : c.value ∉ old := fun inside => fresh ⟨old, before, inside⟩
        simp only [Option.getD_some, List.nodup_append, List.nodup_singleton, List.mem_singleton]
        refine ⟨(p.distinct _ old before).1, trivial, ?_⟩
        rintro v inside w rfl rfl
        exact absent inside
    · rw [Finmap.lookup_insert_of_ne _ same] at listed
      exact p.distinct type values listed
  typed := by rw [Finmap.lookup_insert_of_ne _ (Ne.symm typed), p.typed]

/-- One round of `AddClaim`: a claim without a type or already held is skipped. -/
def addClaim (p : ClaimsPrincipal) (c : Claim) : ClaimsPrincipal :=
  if typed : c.type = "" then p
  else if held : p.hasClaim c = true then p
  else p.append c typed fun holds => held ((p.hasClaim_iff c).2 holds)

/-- `AddClaim` with its list of claims. -/
def addClaims (p : ClaimsPrincipal) (claims : List Claim) : ClaimsPrincipal :=
  claims.foldl addClaim p

/-- `GetClaims`, when the map of types is visited in some order. -/
def getClaims (p : ClaimsPrincipal) (order : List String) : List Claim :=
  order.flatMap fun type => (p.values type).map fun value => ⟨type, value⟩

/-- A new principal holds nothing. -/
theorem not_holds_empty (c : Claim) : ¬ empty.Holds c := by
  rintro ⟨values, listed, _⟩
  cases listed

/-- A claim that is appended is held from then on, and no other claim is added or lost. -/
theorem holds_append (p : ClaimsPrincipal) (c : Claim) (typed : c.type ≠ "")
    (fresh : ¬ p.Holds c) (d : Claim) : (p.append c typed fresh).Holds d ↔ p.Holds d ∨ d = c := by
  unfold Holds append
  by_cases same : d.type = c.type
  · have iff : d = c ↔ d.value = c.value := by
      cases d
      cases c
      simp_all
    rw [same, Finmap.lookup_insert, iff, values]
    cases p.claims.lookup c.type <;> simp
  · have other : d ≠ c := fun is => same (congrArg Claim.type is)
    rw [Finmap.lookup_insert_of_ne _ same]
    simp [other]

/-- Adding a claim makes exactly that claim held, if it has a type. -/
theorem holds_addClaim (p : ClaimsPrincipal) (c d : Claim) :
    (p.addClaim c).Holds d ↔ p.Holds d ∨ d = c ∧ c.type ≠ "" := by
  unfold addClaim
  split
  · next untyped => simp [untyped]
  · next typed =>
    split
    · next held =>
      have holds := (p.hasClaim_iff c).1 held
      constructor
      · exact Or.inl
      · rintro (old | ⟨rfl, _⟩)
        · exact old
        · exact holds
    · rw [holds_append]
      simp [typed]

/-- Adding a list of claims makes exactly the typed ones held. -/
theorem holds_addClaims (p : ClaimsPrincipal) (claims : List Claim) (d : Claim) :
    (p.addClaims claims).Holds d ↔ p.Holds d ∨ d ∈ claims ∧ d.type ≠ "" := by
  unfold addClaims
  induction claims generalizing p with
  | nil => simp
  | cons c rest inductionHypothesis =>
    rw [List.foldl_cons, inductionHypothesis, holds_addClaim, List.mem_cons]
    constructor
    · rintro ((held | ⟨rfl, typed⟩) | ⟨inside, typed⟩)
      · exact Or.inl held
      · exact Or.inr ⟨Or.inl rfl, typed⟩
      · exact Or.inr ⟨Or.inr inside, typed⟩
    · rintro (held | ⟨rfl | inside, typed⟩)
      · exact Or.inl (Or.inl held)
      · exact Or.inl (Or.inr ⟨rfl, typed⟩)
      · exact Or.inr ⟨inside, typed⟩

/-- A held claim has a type. -/
theorem Holds.typed {p : ClaimsPrincipal} {c : Claim} (holds : p.Holds c) : c.type ≠ "" := by
  intro untyped
  obtain ⟨values, listed, _⟩ := holds
  rw [untyped, p.typed] at listed
  cases listed

/-- Whatever the order, `GetClaims` returns exactly the claims held. -/
theorem mem_getClaims (p : ClaimsPrincipal) (order : List String)
    (visits : IterationOrder p.claims order) (c : Claim) : c ∈ p.getClaims order ↔ p.Holds c := by
  simp only [getClaims, List.mem_flatMap, List.mem_map, values, Holds]
  constructor
  · rintro ⟨type, visited, value, inside, rfl⟩
    obtain ⟨values, listed⟩ := Finmap.mem_iff.1 ((visits.2 type).1 visited)
    exact ⟨values, listed, by simpa [listed] using inside⟩
  · rintro ⟨values, listed, inside⟩
    exact ⟨c.type, (visits.2 c.type).2 (Finmap.mem_iff.2 ⟨values, listed⟩), c.value,
      by simpa [listed] using inside, rfl⟩

end ClaimsPrincipal

/-- One value of a claims map. Numbers are kept as the text they print as. -/
inductive ClaimScalar where
  | number (text : String)
  | bool (value : Bool)
  | string (value : String)
  | other

inductive ClaimValue where
  | scalar (value : ClaimScalar)
  | list (values : List ClaimScalar)
  | strings (values : List String)

/-- The claim made of one scalar; anything but numbers, booleans and text is dropped. -/
def scalarClaim (key : String) : ClaimScalar → Option Claim
  | .number text => some ⟨key, text⟩
  | .bool value => some ⟨key, if value then "true" else "false"⟩
  | .string value => some ⟨key, value⟩
  | .other => none

/-- The claims added for one element of a claims map, in order. -/
def elementClaims (key : String) : ClaimValue → List Claim
  | .scalar value => (scalarClaim key value).toList
  | .list values => values.filterMap (scalarClaim key)
  | .strings values => values.map fun value => ⟨key, value⟩

/-- `ClaimsPrincipalFromClaimsMap`, when the map is visited in some order. -/
def claimsPrincipalFromClaimsMap (claimsMap : FiniteMap String ClaimValue) (order : List String) :
    ClaimsPrincipal :=
  ClaimsPrincipal.empty.addClaims (order.flatMap fun key =>
    match claimsMap.lookup key with
    | some element => elementClaims key element
    | none => [])

/-- The claims a claims map stands for. -/
def MapClaim (claimsMap : FiniteMap String ClaimValue) (c : Claim) : Prop :=
  c.type ≠ "" ∧ ∃ element, claimsMap.lookup c.type = some element ∧
    c ∈ elementClaims c.type element

/-- The claims of an element have its key as their type. -/
theorem type_of_mem_elementClaims (key : String) (element : ClaimValue) (c : Claim)
    (inside : c ∈ elementClaims key element) : c.type = key := by
  have scalar : ∀ value, c ∈ (scalarClaim key value).toList → c.type = key := by
    intro value made
    cases value <;> simp [scalarClaim] at made <;> simp [made]
  cases element with
  | scalar value => exact scalar value inside
  | list values =>
    obtain ⟨value, _, made⟩ := List.mem_filterMap.1 inside
    exact scalar value (by simp [made])
  | strings values =>
    obtain ⟨value, _, rfl⟩ := List.mem_map.1 inside
    rfl

/-- The principal built from a claims map holds its claims, whatever the order. -/
theorem holds_claimsPrincipalFromClaimsMap (claimsMap : FiniteMap String ClaimValue)
    (order : List String) (visits : IterationOrder claimsMap order) (c : Claim) :
    (claimsPrincipalFromClaimsMap claimsMap order).Holds c ↔ MapClaim claimsMap c := by
  rw [claimsPrincipalFromClaimsMap, ClaimsPrincipal.holds_addClaims, List.mem_flatMap]
  constructor
  · rintro (held | ⟨⟨key, _, inside⟩, typed⟩)
    · exact absurd held (ClaimsPrincipal.not_holds_empty c)
    · cases found : claimsMap.lookup key with
      | none => simp [found] at inside
      | some element =>
        rw [found] at inside
        have key_eq := type_of_mem_elementClaims key element c inside
        exact ⟨typed, element, key_eq ▸ found, key_eq ▸ inside⟩
  · rintro ⟨typed, element, found, inside⟩
    refine Or.inr ⟨⟨c.type, (visits.2 _).2 (Finmap.mem_iff.2 ⟨element, found⟩), ?_⟩, typed⟩
    rw [found]
    exact inside

/-- The prefix of the claim types that only the mtls interceptor may set. -/
def mtlsClaimTypePrefix : String := "mtls_"

/-- A type with the reserved prefix. -/
def reservedType (type : String) : Bool :=
  mtlsClaimTypePrefix.toList.isPrefixOf type.toList

def Claim.reserved (c : Claim) : Bool := reservedType c.type

/-- `WithoutReservedMTLSClaims`. -/
def withoutReservedMTLSClaims (claims : List Claim) : List Claim :=
  claims.filter fun c => !c.reserved

/-- `ClaimsAddedSince`. -/
def claimsAddedSince (before after : List Claim) : List Claim :=
  after.filter fun c => !before.contains c

end FluffyCore.Auth
