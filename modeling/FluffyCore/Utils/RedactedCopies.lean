import FluffyCore.Utils.Redact
import Mathlib.Data.List.Perm.Basic
import Mathlib.Data.List.Nodup

/-!
# What redaction reaches

The strings a tagged field holds are divided into those the walk rewrites and those it
misses. A redacted copy is complete exactly when redaction would not change what is missed:
the elements of a tagged slice, and every tagged string below an array, a map or a second
pointer. The source is left alone in any case, since its locations are not the copy's.
-/

namespace FluffyCore.Utils.Redact

open Library.ByteStrings

section Strings

variable {σ τ : Type}

mutual

/-- The strings the walk rewrites, in order. A field is looked through one pointer for a
string. -/
def Value.walkedIn : Holder → Value σ → List σ
  | holder, .string s => if holder = .tagged then [s] else []
  | holder, .pointer (.string s) => if holder = .tagged then [s] else []
  | _, .struct fields => walkedFields fields
  | _, .slice elements => walkedElements elements
  | _, .pointer (.struct fields) => walkedFields fields
  | _, .pointer (.slice elements) => walkedElements elements
  | _, _ => []

def walkedFields : List (Bool × Value σ) → List σ
  | [] => []
  | (tagged, value) :: rest => value.walkedIn (.ofField tagged) ++ walkedFields rest

def walkedElements : List (Value σ) → List σ
  | [] => []
  | element :: rest => element.walkedIn .plain ++ walkedElements rest

end

/-- The strings that the walk of a value rewrites. -/
def Value.walked (value : Value σ) : List σ := value.walkedIn .plain

mutual

/-- The strings of tagged fields that the walk does not reach: the elements of a tagged
slice, and all of them below an array, a map or a second pointer. -/
def Value.missedIn : Holder → Value σ → List σ
  | holder, .string s => if holder = .inside then [s] else []
  | _, .pointer (.string _) => []
  | _, .struct fields => missedFields fields
  | holder, .slice elements => missedElements holder.below elements
  | _, .pointer (.struct fields) => missedFields fields
  | _, .pointer (.slice elements) => missedElements .plain elements
  | _, value => value.secrets

def missedFields : List (Bool × Value σ) → List σ
  | [] => []
  | (tagged, value) :: rest => value.missedIn (.ofField tagged) ++ missedFields rest

def missedElements : Holder → List (Value σ) → List σ
  | _, [] => []
  | holder, element :: rest => element.missedIn holder ++ missedElements holder rest

end

/-- The strings that the walk of a value misses. -/
def Value.missed (value : Value σ) : List σ := value.missedIn .plain

/-- Induction over values. -/
@[elab_as_elim]
theorem Value.induction {motive : Value σ → Prop} (string : ∀ s, motive (.string s))
    (other : motive .other) (nilPointer : motive .nilPointer)
    (pointer : ∀ target, motive target → motive (.pointer target))
    (slice : ∀ elements, (∀ e ∈ elements, motive e) → motive (.slice elements))
    (array : ∀ elements, (∀ e ∈ elements, motive e) → motive (.array elements))
    (map : ∀ entries, (∀ p ∈ entries, motive p.2) → motive (.map entries))
    (struct : ∀ fields, (∀ p ∈ fields, motive p.2) → motive (.struct fields))
    (value : Value σ) : motive value := by
  induction size : sizeOf value using Nat.strongRecOn generalizing value with
  | ind n inductionHypothesis =>
    subst size
    have smaller : ∀ inner : Value σ, sizeOf inner < sizeOf value → motive inner :=
      fun inner less => inductionHypothesis _ less inner rfl
    have element : ∀ elements : List (Value σ), ∀ e ∈ elements, sizeOf e < sizeOf elements :=
      fun elements e listed => List.sizeOf_lt_of_mem listed
    cases value with
    | string s => exact string s
    | other => exact other
    | nilPointer => exact nilPointer
    | pointer target => exact pointer target (smaller target (by simp))
    | slice elements =>
      refine slice elements fun e listed => smaller e ?_
      have := element elements e listed
      simp only [Value.slice.sizeOf_spec]
      omega
    | array elements =>
      refine array elements fun e listed => smaller e ?_
      have := element elements e listed
      simp only [Value.array.sizeOf_spec]
      omega
    | map entries =>
      refine map entries fun p listed => smaller p.2 ?_
      have inside := List.sizeOf_lt_of_mem listed
      obtain ⟨key, inner⟩ := p
      simp only [Prod.mk.sizeOf_spec, Value.map.sizeOf_spec] at inside ⊢
      omega
    | struct fields =>
      refine struct fields fun p listed => smaller p.2 ?_
      have inside := List.sizeOf_lt_of_mem listed
      obtain ⟨tagged, inner⟩ := p
      simp only [Prod.mk.sizeOf_spec, Value.struct.sizeOf_spec] at inside ⊢
      omega

/-- A loop that appends what it collects from each item. -/
theorem eq_flatMap {ι α : Type} {loop : List ι → List α} {collect : ι → List α}
    (nil : loop [] = []) (cons : ∀ item rest, loop (item :: rest) = collect item ++ loop rest)
    (items : List ι) : loop items = items.flatMap collect := by
  induction items with
  | nil => exact nil
  | cons item rest inductionHypothesis => rw [cons, inductionHypothesis, List.flatMap_cons]

/-- A loop that maps each item. -/
theorem eq_map {ι α : Type} {loop : List ι → List α} {step : ι → α} (nil : loop [] = [])
    (cons : ∀ item rest, loop (item :: rest) = step item :: loop rest) (items : List ι) :
    loop items = items.map step := by
  induction items with
  | nil => exact nil
  | cons item rest inductionHypothesis => rw [cons, inductionHypothesis, List.map_cons]

section Loops

variable (f : σ → τ) (holder : Holder) (elements : List (Value σ))
  (entries : List (Bytes × Value σ)) (fields : List (Bool × Value σ))

/-- The strings of elements are those of each, under the holder of the whole. -/
theorem stringsOfElements_eq :
    stringsOfElements holder elements = elements.flatMap (·.stringsIn holder) :=
  eq_flatMap rfl (fun _ _ => rfl) elements

/-- The strings of map entries are those of each, and a tag does not reach them. -/
theorem stringsOfEntries_eq :
    stringsOfEntries entries = entries.flatMap (·.2.stringsIn .plain) :=
  eq_flatMap rfl (fun _ _ => rfl) entries

/-- The strings of fields are those of each, under a holder for the field's tag. -/
theorem stringsOfFields_eq :
    stringsOfFields fields = fields.flatMap fun p => p.2.stringsIn (.ofField p.1) :=
  eq_flatMap rfl (fun _ _ => rfl) fields

/-- The walk goes through the elements one after the other, without a tag. -/
theorem walkedElements_eq : walkedElements elements = elements.flatMap (·.walkedIn .plain) :=
  eq_flatMap rfl (fun _ _ => rfl) elements

/-- The walk goes through the fields one after the other, each with its own tag. -/
theorem walkedFields_eq :
    walkedFields fields = fields.flatMap fun p => p.2.walkedIn (.ofField p.1) :=
  eq_flatMap rfl (fun _ _ => rfl) fields

/-- The strings missed in elements are those missed in each. -/
theorem missedElements_eq :
    missedElements holder elements = elements.flatMap (·.missedIn holder) :=
  eq_flatMap rfl (fun _ _ => rfl) elements

/-- The strings missed in fields are those missed in each, under its own tag. -/
theorem missedFields_eq :
    missedFields fields = fields.flatMap fun p => p.2.missedIn (.ofField p.1) :=
  eq_flatMap rfl (fun _ _ => rfl) fields

/-- Elements are relabelled one by one. -/
theorem relabelElements_eq : relabelElements f elements = elements.map (Value.relabel f) :=
  eq_map rfl (fun _ _ => rfl) elements

/-- Map entries are relabelled one by one and keep their keys. -/
theorem relabelEntries_eq :
    relabelEntries f entries = entries.map fun p => (p.1, p.2.relabel f) :=
  eq_map rfl (fun _ _ => rfl) entries

/-- Fields are relabelled one by one and keep their tags. -/
theorem relabelFields_eq :
    relabelFields f fields = fields.map fun p => (p.1, p.2.relabel f) :=
  eq_map rfl (fun _ _ => rfl) fields

end Loops

/-- A string with its mark, under another name. -/
def renamed (f : σ → τ) (p : Bool × σ) : Bool × τ := (p.1, f p.2)

/-- Two lists that are collected item by item from matching items match. -/
theorem flatMap_map_congr {ι κ β γ : Type} (items : List ι) (g : ι → κ) (collect : κ → List γ)
    (collected : ι → List β) (h : β → γ)
    (each : ∀ item ∈ items, collect (g item) = (collected item).map h) :
    (items.map g).flatMap collect = (items.flatMap collected).map h := by
  rw [List.flatMap_map, List.map_flatMap]
  exact List.flatMap_congr each

/-- Other strings in the same places, held in the same way: the list of strings follows. -/
theorem stringsIn_relabel (f : σ → τ) (holder : Holder) (value : Value σ) :
    (value.relabel f).stringsIn holder = (value.stringsIn holder).map (renamed f) := by
  induction value using Value.induction generalizing holder with
  | string s => rfl
  | other => rfl
  | nilPointer => rfl
  | pointer target inductionHypothesis => exact inductionHypothesis holder.below
  | slice elements inductionHypothesis =>
    simp only [Value.relabel, Value.stringsIn, relabelElements_eq, stringsOfElements_eq]
    exact flatMap_map_congr _ _ _ _ _ fun e listed => inductionHypothesis e listed holder.below
  | array elements inductionHypothesis =>
    simp only [Value.relabel, Value.stringsIn, relabelElements_eq, stringsOfElements_eq]
    exact flatMap_map_congr _ _ _ _ _ fun e listed => inductionHypothesis e listed .plain
  | map entries inductionHypothesis =>
    simp only [Value.relabel, Value.stringsIn, relabelEntries_eq, stringsOfEntries_eq]
    exact flatMap_map_congr _ _ _ _ _ fun p listed => inductionHypothesis p listed .plain
  | struct fields inductionHypothesis =>
    simp only [Value.relabel, Value.stringsIn, relabelFields_eq, stringsOfFields_eq]
    exact flatMap_map_congr _ _ _ _ _ fun p listed => inductionHypothesis p listed (.ofField p.1)

/-- The same for a value that no field holds. -/
theorem strings_relabel (f : σ → τ) (value : Value σ) :
    (value.relabel f).strings = value.strings.map (renamed f) :=
  stringsIn_relabel f .plain value

/-- Other strings in the same places: the tagged fields hold the ones in theirs. -/
theorem secrets_relabel (f : σ → τ) (value : Value σ) :
    (value.relabel f).secrets = value.secrets.map f := by
  rw [Value.secrets, strings_relabel, markedOf, List.filter_map, List.map_map, Value.secrets,
    markedOf, List.map_map]
  exact List.map_congr_left fun _ _ => rfl

/-- Other strings in the same places: the walk misses the same places. -/
theorem missedIn_relabel (f : σ → τ) (holder : Holder) (value : Value σ) :
    (value.relabel f).missedIn holder = (value.missedIn holder).map f := by
  induction value using Value.induction generalizing holder with
  | string s => cases holder <;> rfl
  | other => rfl
  | nilPointer => rfl
  | pointer target inductionHypothesis =>
    cases target with
    | string s => rfl
    | struct fields => exact inductionHypothesis .plain
    | slice elements => exact inductionHypothesis .plain
    | _ => exact secrets_relabel f (.pointer _)
  | slice elements inductionHypothesis =>
    simp only [Value.relabel, Value.missedIn, relabelElements_eq, missedElements_eq]
    exact flatMap_map_congr _ _ _ _ _ fun e listed => inductionHypothesis e listed holder.below
  | array elements inductionHypothesis => exact secrets_relabel f (.array elements)
  | map entries inductionHypothesis => exact secrets_relabel f (.map entries)
  | struct fields inductionHypothesis =>
    simp only [Value.relabel, Value.missedIn, relabelFields_eq, missedFields_eq]
    exact flatMap_map_congr _ _ _ _ _ fun p listed => inductionHypothesis p listed (.ofField p.1)

/-- The marked strings of a collection, item by item. -/
theorem markedOf_flatMap {ι : Type} (items : List ι) (collect : ι → List (Bool × σ)) :
    markedOf (items.flatMap collect) = items.flatMap fun item => markedOf (collect item) := by
  simp only [markedOf, List.filter_flatMap, List.map_flatMap]

/-- Lists that are collected item by item in two parts can be collected part by part. -/
theorem flatMap_perm_parts {ι : Type} (items : List ι) (whole first second : ι → List σ)
    (each : ∀ item ∈ items, (whole item).Perm (first item ++ second item)) :
    (items.flatMap whole).Perm (items.flatMap first ++ items.flatMap second) :=
  (List.Perm.flatMap_left items each).trans (List.flatMap_append_perm items first second).symm

/-- Below a pointer or in a slice the walk rewrites what it would rewrite anywhere. -/
theorem walkedIn_below (holder : Holder) (value : Value σ) :
    value.walkedIn holder.below = value.walked := by
  cases holder with
  | plain => rfl
  | inside => rfl
  | tagged =>
    cases value with
    | pointer target => cases target <;> rfl
    | _ => rfl

/-- Every string that a tagged field holds is rewritten by the walk or missed, and the walk
rewrites no other string. -/
theorem marked_perm (holder : Holder) (value : Value σ) :
    (markedOf (value.stringsIn holder)).Perm (value.walkedIn holder ++ value.missedIn holder) := by
  induction value using Value.induction generalizing holder with
  | string s => cases holder <;> exact List.Perm.refl _
  | other => exact List.Perm.refl _
  | nilPointer => exact List.Perm.refl _
  | pointer target inductionHypothesis =>
    cases target with
    | string s => cases holder <;> exact List.Perm.refl _
    | struct fields => exact inductionHypothesis .plain
    | slice elements => cases holder <;> exact inductionHypothesis .plain
    | pointer target => cases holder <;> exact List.Perm.refl _
    | _ => exact List.Perm.refl _
  | slice elements inductionHypothesis =>
    have each (e : Value σ) (listed : e ∈ elements) :
        (markedOf (e.stringsIn holder.below)).Perm (e.walked ++ e.missedIn holder.below) := by
      rw [← walkedIn_below holder e]
      exact inductionHypothesis e listed holder.below
    simp only [Value.stringsIn, Value.walkedIn, Value.missedIn, stringsOfElements_eq,
      walkedElements_eq, missedElements_eq, markedOf_flatMap]
    exact flatMap_perm_parts _ _ _ _ each
  | array elements inductionHypothesis => exact List.Perm.refl _
  | map entries inductionHypothesis => exact List.Perm.refl _
  | struct fields inductionHypothesis =>
    simp only [Value.stringsIn, Value.walkedIn, Value.missedIn, stringsOfFields_eq,
      walkedFields_eq, missedFields_eq, markedOf_flatMap]
    exact flatMap_perm_parts _ _ _ _ fun p listed => inductionHypothesis p listed (.ofField p.1)

/-- The same for a value that no field holds. -/
theorem secrets_perm (value : Value σ) : value.secrets.Perm (value.walked ++ value.missed) :=
  marked_perm .plain value

end Strings

section Walk

variable {ε : Type}

/-- The loop over a slice, once its elements are known. -/
theorem redactElements_eq (elements : List (Value Nat))
    (each : ∀ e ∈ elements, ∀ store, redact e store = e.walked.foldl rewrite store)
    (store : Store) :
    redactElements elements store = (walkedElements elements).foldl rewrite store := by
  induction elements generalizing store with
  | nil => rfl
  | cons e rest inductionHypothesis =>
    have later := inductionHypothesis fun element listed =>
      each element (List.mem_cons_of_mem e listed)
    rw [redactElements, walkedElements, List.foldl_append, each e List.mem_cons_self, later]
    rfl

/-- The loop over the fields, once their values are known. -/
theorem redactFields_eq (fields : List (Bool × Value Nat))
    (each : ∀ p ∈ fields, ∀ store, redact p.2 store = p.2.walked.foldl rewrite store)
    (store : Store) :
    redactFields fields store = (walkedFields fields).foldl rewrite store := by
  induction fields generalizing store with
  | nil => rfl
  | cons p rest inductionHypothesis =>
    have later := inductionHypothesis fun field listed => each field (List.mem_cons_of_mem p listed)
    have inner := each p List.mem_cons_self
    obtain ⟨tagged, value⟩ := p
    rw [walkedFields, List.foldl_append, ← later]
    cases value with
    | string s => cases tagged <;> rfl
    | pointer target =>
      cases target with
      | string s => cases tagged <;> rfl
      | _ => cases tagged <;> exact congrArg (redactFields rest) (inner store)
    | _ => cases tagged <;> exact congrArg (redactFields rest) (inner store)

/-- The walk rewrites its strings one after the other. -/
theorem redact_eq (value : Value Nat) (store : Store) :
    redact value store = value.walked.foldl rewrite store := by
  induction value using Value.induction generalizing store with
  | pointer target inductionHypothesis =>
    cases target with
    | struct fields => exact inductionHypothesis store
    | slice elements => exact inductionHypothesis store
    | _ => rfl
  | slice elements inductionHypothesis =>
    exact redactElements_eq elements inductionHypothesis store
  | struct fields inductionHypothesis => exact redactFields_eq fields inductionHypothesis store
  | _ => rfl

/-- Rewriting leaves every other location alone. -/
theorem foldl_rewrite_of_notMem (locations : List Nat) (store : Store) (tested : Nat)
    (outside : tested ∉ locations) : locations.foldl rewrite store tested = store tested := by
  induction locations generalizing store with
  | nil => simp
  | cons location rest inductionHypothesis =>
    rw [List.mem_cons, not_or] at outside
    rw [List.foldl_cons, inductionHypothesis _ outside.2, rewrite,
      Function.update_of_ne outside.1]

/-- Rewriting distinct locations changes each of them once and nothing else. -/
theorem foldl_rewrite (locations : List Nat) (distinct : locations.Nodup) (store : Store)
    (tested : Nat) :
    locations.foldl rewrite store tested =
      if tested ∈ locations then redactString (store tested) else store tested := by
  induction locations generalizing store with
  | nil => simp
  | cons location rest inductionHypothesis =>
    obtain ⟨fresh, others⟩ := List.nodup_cons.1 distinct
    rw [List.foldl_cons, inductionHypothesis others]
    by_cases same : tested = location
    · subst same
      simp [fresh, rewrite]
    · simp [same, rewrite]

/-- What a value reads depends on its own locations only, however it is held. -/
theorem relabel_congr (holder : Holder) (value : Value Nat) (first second : Store)
    (same : ∀ p ∈ value.stringsIn holder, first p.2 = second p.2) :
    value.relabel first = value.relabel second := by
  induction value using Value.induction generalizing holder with
  | string s => exact congrArg Value.string (same _ List.mem_cons_self)
  | other => rfl
  | nilPointer => rfl
  | pointer target inductionHypothesis =>
    exact congrArg Value.pointer (inductionHypothesis holder.below same)
  | slice elements inductionHypothesis =>
    simp only [Value.stringsIn, stringsOfElements_eq, List.mem_flatMap] at same
    simp only [Value.relabel, relabelElements_eq]
    congr 1
    exact List.map_congr_left fun e listed =>
      inductionHypothesis e listed holder.below fun p found => same p ⟨e, listed, found⟩
  | array elements inductionHypothesis =>
    simp only [Value.stringsIn, stringsOfElements_eq, List.mem_flatMap] at same
    simp only [Value.relabel, relabelElements_eq]
    congr 1
    exact List.map_congr_left fun e listed =>
      inductionHypothesis e listed .plain fun p found => same p ⟨e, listed, found⟩
  | map entries inductionHypothesis =>
    simp only [Value.stringsIn, stringsOfEntries_eq, List.mem_flatMap] at same
    simp only [Value.relabel, relabelEntries_eq]
    congr 1
    refine List.map_congr_left fun entry listed => ?_
    rw [inductionHypothesis entry listed .plain fun p found => same p ⟨entry, listed, found⟩]
  | struct fields inductionHypothesis =>
    simp only [Value.stringsIn, stringsOfFields_eq, List.mem_flatMap] at same
    simp only [Value.relabel, relabelFields_eq]
    congr 1
    refine List.map_congr_left fun field listed => ?_
    rw [inductionHypothesis field listed (.ofField field.1) fun p found =>
      same p ⟨field, listed, found⟩]

/-- Below a pointer stand the same strings. -/
theorem strings_pointer {σ : Type} (value : Value σ) :
    (Value.pointer value).strings = value.strings := by
  rfl

/-- The secrets of a value are its strings with a mark. -/
theorem mem_secrets_iff {value : Value Nat} {location : Nat} :
    location ∈ value.secrets ↔ (true, location) ∈ value.strings := by
  simp [Value.secrets, markedOf]

/-- A string the walk rewrites is held by a tagged field. -/
theorem walked_tagged {value : Value Nat} {location : Nat} (rewritten : location ∈ value.walked) :
    (true, location) ∈ value.strings :=
  mem_secrets_iff.1 ((secrets_perm value).symm.subset (List.mem_append_left _ rewritten))

/-- The strings of the copy after the walk, compared with what is meant: they agree exactly
when the walk misses no string that redaction would change. -/
theorem strings_redact_iff (dst : Value Nat) (copied : Store) (distinct : dst.locations.Nodup) :
    dst.strings.map (renamed (redact (.pointer dst) copied)) =
        (dst.strings.map (renamed copied)).map redactTagged ↔
      ∀ location ∈ (Value.pointer dst).missed,
        redactString (copied location) = copied location := by
  have parts := secrets_perm (Value.pointer dst)
  have secretsOf : (Value.pointer dst).secrets = dst.secrets := by
    rw [Value.secrets, strings_pointer, Value.secrets]
  have secretsDistinct : dst.secrets.Nodup :=
    distinct.sublist (List.filter_sublist.map _)
  rw [secretsOf] at parts
  obtain ⟨walkedDistinct, _, disjoint⟩ := List.nodup_append.1 (parts.nodup_iff.1 secretsDistinct)
  rw [List.map_map, List.map_inj_left]
  simp only [redact_eq, renamed, redactTagged, Function.comp_apply, foldl_rewrite _ walkedDistinct]
  constructor
  · intro meant location missed
    have held : location ∈ dst.secrets := parts.symm.subset (List.mem_append_right _ missed)
    have unwalked : location ∉ (Value.pointer dst).walked := fun rewritten =>
      disjoint location rewritten location missed rfl
    have agrees := meant _ (mem_secrets_iff.1 held)
    simp only [unwalked, if_false, if_true, Prod.mk.injEq, true_and] at agrees
    exact agrees.symm
  · rintro fixed ⟨tagged, location⟩ listed
    cases tagged with
    | true =>
      have held : location ∈ dst.secrets := mem_secrets_iff.2 listed
      rcases List.mem_append.1 (parts.subset held) with rewritten | missed
      · simp [rewritten]
      · simp [fixed location missed]
    | false =>
      have unwalked : location ∉ (Value.pointer dst).walked := by
        intro rewritten
        have tagged := walked_tagged rewritten
        rw [strings_pointer] at tagged
        have same := List.inj_on_of_nodup_map distinct listed tagged rfl
        cases same
      simp [unwalked]

/-- A redacted copy leaves the source alone. It has the strings of the source in the same
places, redacted where a tagged field holds them and unchanged elsewhere, exactly when each
tagged string that the walk misses reads the same redacted. -/
theorem makeRedactedCopy_complete_iff
    (copier : Store → Value Nat → Except ε (Store × Value Nat)) (store copied : Store)
    (src dst : Value Nat) (succeeded : copier store src = .ok (copied, dst))
    (deep : DeepCopy store src copied dst) :
    ∃ final, makeRedactedCopy copier store src = .ok (final, dst) ∧
      src.relabel final = src.relabel store ∧
      ((dst.relabel final).strings = (src.relabel store).strings.map redactTagged ↔
        ∀ secret ∈ (Value.pointer (src.relabel store)).missed, redactString secret = secret) := by
  refine ⟨redact (.pointer dst) copied, by simp [makeRedactedCopy, succeeded], ?_, ?_⟩
  · refine relabel_congr .plain src _ _ fun p listed => ?_
    have found : p.2 ∈ src.locations := List.mem_map_of_mem listed
    have outside : p.2 ∉ (Value.pointer dst).walked := by
      intro rewritten
      have held := walked_tagged rewritten
      rw [strings_pointer] at held
      exact deep.apart p.2 (List.mem_map.2 ⟨_, held, rfl⟩) found
    rw [redact_eq, foldl_rewrite_of_notMem _ _ _ outside, deep.kept p.2 found]
  · have below : Value.pointer (dst.relabel copied) = (Value.pointer dst).relabel copied := by
      rw [Value.relabel]
    rw [← deep.equal, strings_relabel, strings_relabel, below, Value.missed,
      missedIn_relabel, ← Value.missed, strings_redact_iff dst copied deep.unshared]
    simp only [List.forall_mem_map]

/-- A copier for values whose locations are below 16: the copy stands 16 places further. -/
def shiftedCopy (store : Store) (src : Value Nat) : Except String (Store × Value Nat) :=
  .ok (fun location => if location < 16 then store location else store (location - 16),
    src.relabel (· + 16))

/-- A password at every location. -/
def passwords : Store := fun _ => ascii "hunter2hunter2"

/-- A struct whose tagged fields are strings, one of them in a slice of structs. -/
def plainConfig : Value Nat :=
  .struct [(false, .string 0), (true, .pointer (.string 1)),
    (false, .slice [.pointer (.struct [(true, .string 2)])])]

/-- The copy has both tagged passwords redacted, and the original keeps them. -/
theorem makeRedactedCopy_plainConfig :
    ∃ final dst, makeRedactedCopy shiftedCopy passwords plainConfig = .ok (final, dst) ∧
      plainConfig.relabel final = plainConfig.relabel passwords ∧
      (dst.relabel final).strings =
        [(false, ascii "hunter2hunter2"), (true, ascii "hunt[[REDACTED]]r2"),
          (true, ascii "hunt[[REDACTED]]r2")] := by
  have deep : DeepCopy passwords plainConfig
      (fun location => if location < 16 then passwords location else passwords (location - 16))
      (plainConfig.relabel (· + 16)) := {
    equal := by simp [plainConfig, Value.relabel, relabelFields, relabelElements, passwords]
    unshared := by decide
    apart := by decide
    kept := by simp [passwords] }
  obtain ⟨final, ran, kept, meant⟩ :=
    makeRedactedCopy_complete_iff shiftedCopy passwords _ plainConfig _ rfl deep
  refine ⟨final, _, ran, kept, ?_⟩
  rw [meant.2 (by decide)]
  decide

/-- Tagged strings in a slice, and structs with a tagged string in an array, in a map and
behind two pointers. -/
def leakyConfig : Value Nat :=
  .struct [(true, .slice [.string 0]), (false, .array [.struct [(true, .string 1)]]),
    (false, .map [(ascii "db", .struct [(true, .string 2)])]),
    (false, .pointer (.pointer (.struct [(true, .string 3)])))]

/-- None of these strings is redacted in the copy. -/
theorem makeRedactedCopy_leaks :
    ∃ copied dst final, shiftedCopy passwords leakyConfig = .ok (copied, dst) ∧
      DeepCopy passwords leakyConfig copied dst ∧
      makeRedactedCopy shiftedCopy passwords leakyConfig = .ok (final, dst) ∧
      (dst.relabel final).strings = [(true, ascii "hunter2hunter2"), (true, ascii "hunter2hunter2"),
        (true, ascii "hunter2hunter2"), (true, ascii "hunter2hunter2")] ∧
      (dst.relabel final).strings ≠
        (leakyConfig.relabel passwords).strings.map redactTagged := by
  refine ⟨fun location => if location < 16 then passwords location else passwords (location - 16),
    leakyConfig.relabel (· + 16), _, rfl, ?_, rfl, by decide, by decide⟩
  exact {
    equal := by
      simp [leakyConfig, Value.relabel, relabelFields, relabelElements, relabelEntries, passwords]
    unshared := by decide
    apart := by decide
    kept := by simp [passwords] }

end Walk

end FluffyCore.Utils.Redact
