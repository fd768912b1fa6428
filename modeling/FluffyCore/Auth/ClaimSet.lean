import FluffyCore.Auth.ClaimsPrincipal
import FluffyCore.Library.SwapRemoval

/-!
# The principal as a set of claims

A claim is removed by swapping the last value of its type into its place; a type whose
last value goes is removed from both maps. The caller sees none of this. After any
sequence of additions and removals the principal answers every question as the finite
set of its claims would.
-/

namespace FluffyCore.Auth

open Library.MapLoop Library.SwapRemoval

namespace ClaimsPrincipal

/-- `removeIndex`. The index is a position of the list, so the panic is not reached. -/
def removeIndex (s : List String) (index : Fin s.length) : List String := swapRemove s index

/-- Removing an index from distinct values removes that value only. -/
theorem mem_removeIndex (s : List String) (index : Fin s.length) (distinct : s.Nodup)
    (value : String) : value ∈ removeIndex s index ↔ value ∈ s ∧ value ≠ s.get index := by
  rw [removeIndex, (swapRemove_perm s index).mem_iff, ← distinct.erase_getElem,
    distinct.mem_erase_iff, and_comm]
  rfl

/-- Removing an index keeps the values distinct. -/
theorem nodup_removeIndex (s : List String) (index : Fin s.length) (distinct : s.Nodup) :
    (removeIndex s index).Nodup :=
  (swapRemove_perm s index).nodup_iff.2 (distinct.sublist (s.eraseIdx_sublist index))

/-- Delete a type from both maps. -/
def deleteType (p : ClaimsPrincipal) (claimType : String) : ClaimsPrincipal where
  claims := p.claims.erase claimType
  fastMap := p.fastMap.erase claimType
  agree type := by
    by_cases same : type = claimType
    · subst type
      simp
    · rw [Finmap.lookup_erase_ne same, Finmap.lookup_erase_ne same, p.agree]
  distinct type values listed := by
    by_cases same : type = claimType
    · subst type
      simp at listed
    · rw [Finmap.lookup_erase_ne same] at listed
      exact p.distinct type values listed
  typed := by
    by_cases same : "" = claimType
    · simp [← same]
    · rw [Finmap.lookup_erase_ne same, p.typed]

/-- Store a shorter list of values and delete one value from the set beside it. -/
def deleteValue (p : ClaimsPrincipal) (claimType : String) (values : List String)
    (listed : p.claims.lookup claimType = some values) (index : Fin values.length)
    (more : removeIndex values index ≠ []) : ClaimsPrincipal where
  claims := p.claims.insert claimType (removeIndex values index)
  fastMap := update (Option.map (·.erase (values.get index))) claimType p.fastMap
  agree type := by
    rw [lookup_update]
    by_cases same : type = claimType
    · subst type
      have distinct := (p.distinct _ values listed).1
      rw [if_pos rfl, Finmap.lookup_insert, p.agree, listed]
      simp only [Option.map_some, Option.some.injEq]
      ext value
      simp [mem_removeIndex values index distinct, and_comm]
    · rw [if_neg same, Finmap.lookup_insert_of_ne _ same, p.agree]
  distinct type kept stored := by
    by_cases same : type = claimType
    · subst type
      rw [Finmap.lookup_insert] at stored
      obtain rfl := Option.some.inj stored
      exact ⟨nodup_removeIndex values index (p.distinct _ values listed).1, more⟩
    · rw [Finmap.lookup_insert_of_ne _ same] at stored
      exact p.distinct type kept stored
  typed := by
    have named : "" ≠ claimType := by
      rintro rfl
      rw [p.typed] at listed
      cases listed
    rw [Finmap.lookup_insert_of_ne _ named, p.typed]

/-- One round of `RemoveClaimType`. -/
def removeClaimType (p : ClaimsPrincipal) (claimType : String) : ClaimsPrincipal :=
  match p.claims.lookup claimType with
  | none => p
  | some _ => p.deleteType claimType

/-- `RemoveClaimType` with its list of types. -/
def removeClaimTypes (p : ClaimsPrincipal) (claimTypes : List String) : ClaimsPrincipal :=
  claimTypes.foldl removeClaimType p

/-- One round of `RemoveClaim`: find the value in the list of its type and remove it. -/
def removeClaim (p : ClaimsPrincipal) (c : Claim) : ClaimsPrincipal :=
  match listed : p.claims.lookup c.type with
  | none => p
  | some values =>
    match values.finIdxOf? c.value with
    | none => p
    | some foundidx =>
      if emptied : (removeIndex values foundidx).length = 0 then p.deleteType c.type
      else p.deleteValue c.type values listed foundidx fun none => emptied (by rw [none]; rfl)

/-- `RemoveClaim` with its list of claims. -/
def removeClaims (p : ClaimsPrincipal) (claims : List Claim) : ClaimsPrincipal :=
  claims.foldl removeClaim p

/-- `HasClaimType`. -/
def hasClaimType (p : ClaimsPrincipal) (claimType : String) : Bool :=
  (p.claims.lookup claimType).isSome

/-- `GetClaimsByType`. -/
def getClaimsByType (p : ClaimsPrincipal) (claimType : String) : List Claim :=
  match p.claims.lookup claimType with
  | none => []
  | some claimParent => claimParent.map fun claimValue => ⟨claimType, claimValue⟩

/-- Deleting a type removes exactly the claims of that type. -/
theorem holds_deleteType (p : ClaimsPrincipal) (claimType : String) (d : Claim) :
    (p.deleteType claimType).Holds d ↔ p.Holds d ∧ d.type ≠ claimType := by
  unfold Holds deleteType
  by_cases same : d.type = claimType
  · subst claimType
    simp
  · simp [Finmap.lookup_erase_ne same, same]

/-- Removing a type leaves exactly the claims of other types. -/
theorem holds_removeClaimType (p : ClaimsPrincipal) (claimType : String) (d : Claim) :
    (p.removeClaimType claimType).Holds d ↔ p.Holds d ∧ d.type ≠ claimType := by
  unfold removeClaimType
  split
  · next absent =>
    refine ⟨fun holds => ⟨holds, ?_⟩, And.left⟩
    rintro rfl
    obtain ⟨values, listed, _⟩ := holds
    cases absent.symm.trans listed
  · exact holds_deleteType p claimType d

/-- Removing some types removes exactly the claims of these types. -/
theorem holds_removeClaimTypes (p : ClaimsPrincipal) (claimTypes : List String) (d : Claim) :
    (p.removeClaimTypes claimTypes).Holds d ↔ p.Holds d ∧ d.type ∉ claimTypes := by
  unfold removeClaimTypes
  induction claimTypes generalizing p with
  | nil => simp
  | cons claimType rest inductionHypothesis =>
    rw [List.foldl_cons, inductionHypothesis, holds_removeClaimType, List.mem_cons, not_or,
      and_assoc]

/-- Deleting one of several values of a type removes exactly that claim. -/
theorem holds_deleteValue (p : ClaimsPrincipal) (claimType : String) (values : List String)
    (listed : p.claims.lookup claimType = some values) (index : Fin values.length)
    (more : removeIndex values index ≠ []) (d : Claim) :
    (p.deleteValue claimType values listed index more).Holds d ↔
      p.Holds d ∧ d ≠ ⟨claimType, values.get index⟩ := by
  unfold Holds deleteValue
  by_cases same : d.type = claimType
  · obtain ⟨type, value⟩ := d
    obtain rfl : type = claimType := same
    simp [listed, mem_removeIndex values index (p.distinct _ values listed).1]
  · have other : d ≠ ⟨claimType, values.get index⟩ := fun is => same (congrArg Claim.type is)
    simp only [Finmap.lookup_insert_of_ne _ same]
    exact (and_iff_left other).symm

/-- Removing a claim leaves exactly the other claims. -/
theorem holds_removeClaim (p : ClaimsPrincipal) (c d : Claim) :
    (p.removeClaim c).Holds d ↔ p.Holds d ∧ d ≠ c := by
  unfold removeClaim
  split
  · next absent =>
    refine ⟨fun holds => ⟨holds, ?_⟩, And.left⟩
    rintro rfl
    obtain ⟨values, listed, _⟩ := holds
    cases absent.symm.trans listed
  · next values listed =>
    split
    · next absent =>
      refine ⟨fun holds => ⟨holds, ?_⟩, And.left⟩
      rintro rfl
      obtain ⟨values', listed', inside⟩ := holds
      obtain rfl := Option.some.inj (listed.symm.trans listed')
      exact List.finIdxOf?_eq_none_iff.1 absent inside
    · next foundidx found =>
      have value : values.get foundidx = c.value := (List.finIdxOf?_eq_some_iff.1 found).1
      have claim : (⟨c.type, values.get foundidx⟩ : Claim) = c := by rw [value]
      split
      · next emptied =>
        -- The removed value was the only one of its type.
        rw [holds_deleteType]
        refine and_congr_right fun holds => not_congr ⟨fun same => ?_, fun is => is ▸ rfl⟩
        obtain ⟨values', listed', inside⟩ := holds
        rw [same, listed] at listed'
        obtain rfl := Option.some.inj listed'
        have kept := mem_removeIndex values foundidx (p.distinct _ values listed).1 d.value
        rw [List.eq_nil_of_length_eq_zero emptied] at kept
        have equal : d.value = c.value := by
          by_contra differ
          exact List.not_mem_nil (kept.2 ⟨inside, value ▸ differ⟩)
        cases d
        cases c
        simp_all
      · rw [holds_deleteValue, claim]

/-- Removing some claims removes exactly these claims. -/
theorem holds_removeClaims (p : ClaimsPrincipal) (claims : List Claim) (d : Claim) :
    (p.removeClaims claims).Holds d ↔ p.Holds d ∧ d ∉ claims := by
  unfold removeClaims
  induction claims generalizing p with
  | nil => simp
  | cons c rest inductionHypothesis =>
    rw [List.foldl_cons, inductionHypothesis, holds_removeClaim, List.mem_cons, not_or, and_assoc]

/-- A type is present if a claim of it is held: no type has an empty list. -/
theorem hasClaimType_iff (p : ClaimsPrincipal) (claimType : String) :
    p.hasClaimType claimType = true ↔ ∃ c, p.Holds c ∧ c.type = claimType := by
  rw [hasClaimType, Option.isSome_iff_exists]
  constructor
  · rintro ⟨values, listed⟩
    obtain ⟨value, inside⟩ := List.exists_mem_of_ne_nil values (p.distinct _ values listed).2
    exact ⟨⟨claimType, value⟩, ⟨values, listed, inside⟩, rfl⟩
  · rintro ⟨c, ⟨values, listed, _⟩, rfl⟩
    exact ⟨values, listed⟩

/-- The claims of a type are the ones held, each once. -/
theorem getClaimsByType_spec (p : ClaimsPrincipal) (claimType : String) :
    (p.getClaimsByType claimType).Nodup ∧
      ∀ c, c ∈ p.getClaimsByType claimType ↔ p.Holds c ∧ c.type = claimType := by
  unfold getClaimsByType
  split
  · next absent =>
    refine ⟨List.nodup_nil, fun c => ⟨nofun, ?_⟩⟩
    rintro ⟨⟨values, listed, _⟩, rfl⟩
    cases absent.symm.trans listed
  · next values listed =>
    refine ⟨?_, fun c => ?_⟩
    · exact (p.distinct _ values listed).1.map fun first second same => (Claim.mk.inj same).2
    · rw [List.mem_map]
      constructor
      · rintro ⟨value, inside, rfl⟩
        exact ⟨⟨values, listed, inside⟩, rfl⟩
      · rintro ⟨⟨values', listed', inside⟩, rfl⟩
        obtain rfl := Option.some.inj (listed.symm.trans listed')
        exact ⟨c.value, inside, rfl⟩

/-- `GetClaims` lists no claim twice. -/
theorem nodup_getClaims (p : ClaimsPrincipal) (order : List String)
    (visits : IterationOrder p.claims order) : (p.getClaims order).Nodup := by
  refine List.nodup_flatMap.2 ⟨fun type _ => ?_, visits.1.imp fun {first second} differ => ?_⟩
  · have distinct : (p.values type).Nodup := by
      unfold values
      cases listed : p.claims.lookup type with
      | none => exact List.nodup_nil
      | some values => exact (p.distinct type values listed).1
    exact distinct.map fun value other same => (Claim.mk.inj same).2
  · intro c inFirst inSecond
    obtain ⟨value, _, rfl⟩ := List.mem_map.1 inFirst
    obtain ⟨other, _, same⟩ := List.mem_map.1 inSecond
    exact differ (Claim.mk.inj same).1.symm

end ClaimsPrincipal

/-- A call that changes a principal. -/
inductive PrincipalCall where
  | addClaim (claims : List Claim)
  | removeClaim (claims : List Claim)
  | removeClaimType (claimTypes : List String)

def PrincipalCall.run (p : ClaimsPrincipal) : PrincipalCall → ClaimsPrincipal
  | .addClaim claims => p.addClaims claims
  | .removeClaim claims => p.removeClaims claims
  | .removeClaimType claimTypes => p.removeClaimTypes claimTypes

/-- What a call does to a set of claims. -/
def PrincipalCall.effect (held : Finset Claim) : PrincipalCall → Finset Claim
  | .addClaim claims => held ∪ claims.toFinset.filter fun c => c.type ≠ ""
  | .removeClaim claims => held \ claims.toFinset
  | .removeClaimType claimTypes => held.filter fun c => c.type ∉ claimTypes

/-- A principal that holds the claims of a set. -/
def ClaimsPrincipal.Represents (p : ClaimsPrincipal) (held : Finset Claim) : Prop :=
  ∀ c, p.Holds c ↔ c ∈ held

/-- Every call does to the principal what it does to the set. -/
theorem PrincipalCall.run_represents (p : ClaimsPrincipal) (held : Finset Claim)
    (represents : p.Represents held) (call : PrincipalCall) :
    (call.run p).Represents (call.effect held) := by
  intro c
  cases call with
  | addClaim claims => simp [run, effect, ClaimsPrincipal.holds_addClaims, represents c]
  | removeClaim claims => simp [run, effect, ClaimsPrincipal.holds_removeClaims, represents c]
  | removeClaimType claimTypes =>
    simp [run, effect, ClaimsPrincipal.holds_removeClaimTypes, represents c]

/-- A sequence of calls does to a principal what it does to the set of its claims. -/
theorem runs_represent (calls : List PrincipalCall) (p : ClaimsPrincipal) (held : Finset Claim)
    (represents : p.Represents held) :
    (calls.foldl PrincipalCall.run p).Represents (calls.foldl PrincipalCall.effect held) := by
  induction calls generalizing p held with
  | nil => exact represents
  | cons call rest inductionHypothesis =>
    exact inductionHypothesis _ _ (call.run_represents p held represents)

/-- After any calls on a fresh principal every question is answered from the set of
claims the calls leave. -/
theorem principal_refines_claim_set (calls : List PrincipalCall) :
    let p := calls.foldl PrincipalCall.run ClaimsPrincipal.empty
    let held := calls.foldl PrincipalCall.effect ∅
    (∀ order, IterationOrder p.claims order →
      (p.getClaims order).Nodup ∧ ∀ c, c ∈ p.getClaims order ↔ c ∈ held) ∧
    (∀ c, p.hasClaim c = true ↔ c ∈ held) ∧
    (∀ claimType, p.hasClaimType claimType = true ↔ ∃ c ∈ held, c.type = claimType) ∧
    ∀ claimType, (p.getClaimsByType claimType).Nodup ∧
      ∀ c, c ∈ p.getClaimsByType claimType ↔ c ∈ held ∧ c.type = claimType := by
  intro p held
  have represents : p.Represents held := runs_represent calls _ _ fun c =>
    ⟨fun holds => absurd holds (ClaimsPrincipal.not_holds_empty c), nofun⟩
  refine ⟨fun order visits => ⟨p.nodup_getClaims order visits, fun c => ?_⟩, fun c => ?_,
    fun claimType => ?_, fun claimType => ?_⟩
  · rw [p.mem_getClaims order visits, represents c]
  · rw [p.hasClaim_iff, represents c]
  · rw [p.hasClaimType_iff]
    exact exists_congr fun c => and_congr_left' (represents c)
  · obtain ⟨distinct, listed⟩ := p.getClaimsByType_spec claimType
    exact ⟨distinct, fun c => by rw [listed c, represents c]⟩

end FluffyCore.Auth
