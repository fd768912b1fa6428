import FluffyCore.Library.MapLoop

/-!
# A cache whose entries expire

An entry is stored for a time to live that counts from the moment it is stored. A
lookup finds it while that time has not elapsed.
-/

namespace FluffyCore.Library.ExpiringCache

open MapLoop

universe u v
variable {κ : Type u} {β : Type v}

/-- A stored value with the moment it is lost. -/
structure Slot (β : Type v) where
  value : β
  expiresAt : Int

abbrev Cache (κ : Type u) (β : Type v) : Type (max u v) := FiniteMap κ (Slot β)

variable [DecidableEq κ]

/-- The value of a key, if it is stored and its time has not elapsed. -/
def get (cache : Cache κ β) (now : Int) (key : κ) : Option β :=
  match cache.lookup key with
  | some slot => if now < slot.expiresAt then some slot.value else none
  | none => none

def setWithTTL (cache : Cache κ β) (now : Int) (key : κ) (value : β) (ttl : Int) : Cache κ β :=
  cache.insert key ⟨value, now + ttl⟩

/-- A lookup that succeeds found a slot before it expired. -/
theorem get_eq_some_iff (cache : Cache κ β) (now : Int) (key : κ) (value : β) :
    get cache now key = some value ↔
      ∃ slot, cache.lookup key = some slot ∧ slot.value = value ∧ now < slot.expiresAt := by
  unfold get
  cases cache.lookup key with
  | none => simp
  | some slot =>
    by_cases alive : now < slot.expiresAt <;> simp [alive]

/-- After a store every slot is the new one or an old one. -/
theorem lookup_setWithTTL (cache : Cache κ β) (now : Int) (key tested : κ) (value : β) (ttl : Int)
    (slot : Slot β) (found : (setWithTTL cache now key value ttl).lookup tested = some slot) :
    slot = ⟨value, now + ttl⟩ ∨ cache.lookup tested = some slot := by
  by_cases same : tested = key
  · subst tested
    rw [setWithTTL, Finmap.lookup_insert] at found
    exact Or.inl (Option.some.inj found).symm
  · rw [setWithTTL, Finmap.lookup_insert_of_ne _ same] at found
    exact Or.inr found

end FluffyCore.Library.ExpiringCache
