import FluffyCore.Library.ByteStrings

/-!
# Redacted copies

`MakeRedactedCopy` deep-copies a value and overwrites strings of the copy in place. A value
is modelled by its shape, with a location at every string; the strings themselves are in a
store, so that writing to the copy and leaving the source alone can be told apart. Reading
the locations gives the value with its strings.

The walk looks through one pointer and enters structs and slices only, and it tests the kind
of a field before its tag. What redaction is meant to reach is stated apart from it, by the
strings of a value in order and which of them a tagged field holds.
-/

namespace FluffyCore.Utils.Redact

open Library.ByteStrings

/-- The value of a variable: strings, containers, and scalars that hold no string. Each
field of a struct comes with whether it is tagged. -/
inductive Value (σ : Type) where
  | string (s : σ)
  | other
  | nilPointer
  | pointer (target : Value σ)
  | slice (elements : List (Value σ))
  | array (elements : List (Value σ))
  | map (entries : List (Bytes × Value σ))
  | struct (fields : List (Bool × Value σ))

/-- What stands at each location. -/
abbrev Store : Type := Nat → Bytes

def redactedString : Bytes := ascii "[[REDACTED]]"

def redactString (s : Bytes) : Bytes :=
  if s.length ≥ 8 then s.take 4 ++ redactedString ++ s.drop (s.length - 2)
  else if s.length ≥ 6 then s.take 2 ++ redactedString
  else redactedString

/-- `SetString` with the redacted text. -/
def rewrite (store : Store) (location : Nat) : Store :=
  Function.update store location (redactString (store location))

mutual

/-- `Redact` looks through one pointer and enters a struct or a slice. -/
def redact : Value Nat → Store → Store
  | .struct fields, store => redactFields fields store
  | .slice elements, store => redactElements elements store
  | .pointer (.struct fields), store => redactFields fields store
  | .pointer (.slice elements), store => redactElements elements store
  | _, store => store

/-- The loop over the fields. One pointer of a field is looked through. A struct or a slice
is walked, whatever its tag; a tagged string is rewritten; nothing else is touched, as
`redact` touches nothing else. -/
def redactFields : List (Bool × Value Nat) → Store → Store
  | [], store => store
  | (tagged, .string s) :: rest, store =>
    redactFields rest (if tagged then rewrite store s else store)
  | (tagged, .pointer (.string s)) :: rest, store =>
    redactFields rest (if tagged then rewrite store s else store)
  | (_, value) :: rest, store => redactFields rest (redact value store)

/-- The loop over the elements of a slice. -/
def redactElements : List (Value Nat) → Store → Store
  | [], store => store
  | element :: rest, store => redactElements rest (redact element store)

end

section Strings

variable {σ τ : Type}

/-- How a value is held: by a tagged field, directly inside of one, or otherwise. -/
inductive Holder where
  | plain
  | tagged
  | inside
deriving DecidableEq

/-- How the target of a pointer and the elements of a slice are held. -/
def Holder.below : Holder → Holder
  | .tagged => .inside
  | _ => .plain

/-- The field of a struct as a holder. -/
def Holder.ofField (tagged : Bool) : Holder := if tagged then .tagged else .plain

mutual

/-- The strings of a value in order, each with whether a tagged field holds it: as a
string, through one pointer, or as an element of a slice. -/
def Value.stringsIn : Holder → Value σ → List (Bool × σ)
  | holder, .string s => [(holder != .plain, s)]
  | _, .other => []
  | _, .nilPointer => []
  | holder, .pointer target => target.stringsIn holder.below
  | holder, .slice elements => stringsOfElements holder.below elements
  | _, .array elements => stringsOfElements .plain elements
  | _, .map entries => stringsOfEntries entries
  | _, .struct fields => stringsOfFields fields

def stringsOfElements : Holder → List (Value σ) → List (Bool × σ)
  | _, [] => []
  | holder, element :: rest => element.stringsIn holder ++ stringsOfElements holder rest

def stringsOfEntries : List (Bytes × Value σ) → List (Bool × σ)
  | [] => []
  | (_, value) :: rest => value.stringsIn .plain ++ stringsOfEntries rest

def stringsOfFields : List (Bool × Value σ) → List (Bool × σ)
  | [] => []
  | (tagged, value) :: rest => value.stringsIn (.ofField tagged) ++ stringsOfFields rest

end

/-- The strings of a value that no field holds. -/
def Value.strings (value : Value σ) : List (Bool × σ) := value.stringsIn .plain

/-- The marked ones of a list of strings. -/
def markedOf (strings : List (Bool × σ)) : List σ := (strings.filter (·.1)).map (·.2)

/-- The strings that tagged fields hold. -/
def Value.secrets (value : Value σ) : List σ := markedOf value.strings

mutual

/-- The same value with other strings. -/
def Value.relabel (f : σ → τ) : Value σ → Value τ
  | .string s => .string (f s)
  | .other => .other
  | .nilPointer => .nilPointer
  | .pointer target => .pointer (target.relabel f)
  | .slice elements => .slice (relabelElements f elements)
  | .array elements => .array (relabelElements f elements)
  | .map entries => .map (relabelEntries f entries)
  | .struct fields => .struct (relabelFields f fields)

def relabelElements (f : σ → τ) : List (Value σ) → List (Value τ)
  | [] => []
  | element :: rest => element.relabel f :: relabelElements f rest

def relabelEntries (f : σ → τ) : List (Bytes × Value σ) → List (Bytes × Value τ)
  | [] => []
  | (key, value) :: rest => (key, value.relabel f) :: relabelEntries f rest

def relabelFields (f : σ → τ) : List (Bool × Value σ) → List (Bool × Value τ)
  | [] => []
  | (tagged, value) :: rest => (tagged, value.relabel f) :: relabelFields f rest

end

end Strings

/-- The locations of a value's strings. -/
def Value.locations (value : Value Nat) : List Nat := value.strings.map (·.2)

/-- What the copier library is assumed to do when it succeeds: a value that reads like the
source, at locations of its own, each used once, and the source left as it was. -/
structure DeepCopy (store : Store) (src : Value Nat) (copied : Store) (dst : Value Nat) :
    Prop where
  equal : dst.relabel copied = src.relabel store
  unshared : dst.locations.Nodup
  apart : ∀ location ∈ dst.locations, location ∉ src.locations
  kept : ∀ location ∈ src.locations, copied location = store location

/-- `MakeRedactedCopy` copies the source and walks the copy, which it is given a pointer to. -/
def makeRedactedCopy {ε : Type} (copier : Store → Value Nat → Except ε (Store × Value Nat))
    (store : Store) (src : Value Nat) : Except ε (Store × Value Nat) :=
  match copier store src with
  | .error err => .error err
  | .ok (copied, dst) => .ok (redact (.pointer dst) copied, dst)

/-- What is meant for a string: the redacted text if a tagged field holds it, and the
string itself otherwise. -/
def redactTagged (p : Bool × Bytes) : Bool × Bytes :=
  (p.1, if p.1 then redactString p.2 else p.2)

end FluffyCore.Utils.Redact
