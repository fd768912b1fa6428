import Mathlib.Data.List.Basic

/-!
# Slices of growing arrays

A slice is a reference to the first cells of an array, with a length and a capacity. Appending
to it writes into the cells behind its length as long as the capacity allows, and moves to a
new array otherwise. An append in place changes the array for everybody who holds a slice of
it, so that two appends to one slice overwrite each other.

A computation that makes lists and appends to them is described by what it leaves to its
caller: the arrays that were there before are as they were, every list it has made still holds
what it held, and an append to the list it returns overwrites none of them. Descriptions of
this kind compose: the lists of two computations that run one after the other can be joined by
an append.
-/

namespace FluffyCore.Library.Slices

variable {α : Type}

/-- The arrays given out so far. Of each array, the cells are listed that have been written. -/
abbrev Heap (α : Type) : Type := List (List α)

/-- A slice that begins where its array begins. -/
structure Slice where
  array : Nat
  len : Nat
  cap : Nat
  len_le_cap : len ≤ cap
deriving DecidableEq

/-- The slice that has no array. -/
def Slice.nil : Slice := ⟨0, 0, 0, Nat.le_refl 0⟩

def read (heap : Heap α) (s : Slice) : List α := (heap[s.array]?.getD []).take s.len

/-- How much room a new array gets, given the old capacity and the length that is needed. -/
structure Growth where
  newCap : Nat → Nat → Nat
  le_newCap : ∀ oldCap needed, needed ≤ newCap oldCap needed

/-- A slice literal: a new array that is full. -/
def literal (heap : Heap α) (values : List α) : Heap α × Slice :=
  (heap ++ [values], ⟨heap.length, values.length, values.length, Nat.le_refl _⟩)

def overwrite (start : Nat) (values cells : List α) : List α :=
  cells.take start ++ (values ++ cells.drop (start + values.length))

def append (growth : Growth) (heap : Heap α) (s : Slice) (values : List α) : Heap α × Slice :=
  if fits : s.len + values.length ≤ s.cap then
    (heap.modify s.array (overwrite s.len values), ⟨s.array, s.len + values.length, s.cap, fits⟩)
  else
    (heap ++ [read heap s ++ values],
      ⟨heap.length, s.len + values.length, growth.newCap s.cap (s.len + values.length),
        growth.le_newCap _ _⟩)

/-- The array of a slice exists and has been written up to the length. -/
def Backed (heap : Heap α) (s : Slice) : Prop :=
  0 < s.cap → ∃ cells, heap[s.array]? = some cells ∧ s.len ≤ cells.length

/-- An append to the first slice overwrites no cell of the second. -/
def Slice.Spares (s t : Slice) : Prop := 0 < s.cap → t.array = s.array → t.len ≤ s.len

/-- The array of a slice is not among the first ones. -/
def Slice.From (start : Nat) (s : Slice) : Prop := 0 < s.cap → start ≤ s.array

/-- What a reader of a slice that is backed sees. -/
structure Holds (heap : Heap α) (s : Slice) (values : List α) : Prop where
  backed : Backed heap s
  read_eq : read heap s = values

/-- A slice without capacity is empty. -/
theorem Slice.len_of_cap {s : Slice} (full : ¬ 0 < s.cap) : s.len = 0 := by
  have := s.len_le_cap
  omega

/-- A slice without capacity reads as the empty list. -/
theorem read_of_cap {heap : Heap α} {s : Slice} (full : ¬ 0 < s.cap) : read heap s = [] := by
  rw [read, Slice.len_of_cap full, List.take_zero]

/-- A slice with capacity has an array on the heap. -/
theorem Backed.array_lt {heap : Heap α} {s : Slice} (backed : Backed heap s) (room : 0 < s.cap) :
    s.array < heap.length := by
  obtain ⟨cells, present, _⟩ := backed room
  exact (List.getElem?_eq_some_iff.1 present).1

/-- Slices in different arrays spare each other. -/
theorem Slice.spares_of_apart {s t : Slice}
    (apart : 0 < s.cap → 0 < t.cap → t.array ≠ s.array) : s.Spares t := by
  intro room same
  by_cases other : 0 < t.cap
  · exact absurd same (apart room other)
  · rw [Slice.len_of_cap other]
    exact Nat.zero_le _

/-- A slice whose array is newer spares the older ones. -/
theorem Slice.From.spares {start : Nat} {s t : Slice} (newer : s.From start)
    (older : 0 < t.cap → t.array < start) : s.Spares t :=
  Slice.spares_of_apart fun room other =>
    Nat.ne_of_lt (Nat.lt_of_lt_of_le (older other) (newer room))

/-- A slice whose array is older spares the newer ones. -/
theorem Slice.From.spared {start : Nat} {s t : Slice} (newer : t.From start)
    (older : 0 < s.cap → s.array < start) : s.Spares t :=
  Slice.spares_of_apart fun room other =>
    Nat.ne_of_gt (Nat.lt_of_lt_of_le (older room) (newer other))

/-- A slice holds the same in two heaps if its cells are the same in both. -/
theorem Holds.of_cells {before after : Heap α} {s : Slice} {values : List α}
    (held : Holds before s values)
    (same : ∀ cells, before[s.array]? = some cells → s.len ≤ cells.length →
      ∃ cells', after[s.array]? = some cells' ∧ cells'.take s.len = cells.take s.len) :
    Holds after s values := by
  by_cases room : 0 < s.cap
  · obtain ⟨cells, present, written⟩ := held.backed room
    obtain ⟨cells', present', agree⟩ := same cells present written
    have written' : s.len ≤ cells'.length := by
      have lengths := congrArg List.length agree
      rw [List.length_take, List.length_take, Nat.min_eq_left written] at lengths
      omega
    refine ⟨fun _ => ⟨cells', present', written'⟩, ?_⟩
    rw [← held.read_eq]
    simp only [read, present, present', Option.getD_some, agree]
  · exact ⟨fun room' => absurd room' room, (read_of_cap room).trans
      ((read_of_cap room).symm.trans held.read_eq)⟩

/-- A slice that is backed is as long as it says. -/
theorem Holds.length {heap : Heap α} {s : Slice} {values : List α} (held : Holds heap s values) :
    values.length = s.len := by
  rw [← held.read_eq]
  by_cases room : 0 < s.cap
  · obtain ⟨cells, present, written⟩ := held.backed room
    rw [read, present, Option.getD_some, List.length_take, Nat.min_eq_left written]
  · rw [read_of_cap room, Slice.len_of_cap room, List.length_nil]

/-- Slices do not notice new arrays. -/
theorem Holds.of_older {before after : Heap α} {s : Slice} {values : List α}
    (held : Holds before s values) (older : before <+: after) : Holds after s values := by
  refine held.of_cells fun cells present _ => ⟨cells, ?_, rfl⟩
  obtain ⟨new, rfl⟩ := older
  rw [List.getElem?_append_left (List.getElem?_eq_some_iff.1 present).1, present]

/-- The nil slice holds the empty list, on every heap. -/
theorem holds_nil (heap : Heap α) : Holds heap .nil [] :=
  ⟨fun room => absurd room (by decide), read_of_cap (by decide)⟩

/-- A literal holds its values. -/
theorem holds_literal (heap : Heap α) (values : List α) :
    Holds (literal heap values).1 (literal heap values).2 values :=
  ⟨fun _ => ⟨values, by simp [literal], Nat.le_refl _⟩, by simp [literal, read]⟩

/-! ### One append -/

section Append

variable (growth : Growth) {heap : Heap α} {s : Slice} (values : List α)

/-- The cells before the place where values are written stay. -/
theorem take_overwrite {start count : Nat} {cells : List α} (before : count ≤ start)
    (written : start ≤ cells.length) :
    (overwrite start values cells).take count = cells.take count := by
  rw [overwrite, List.take_append_of_le_length (by rw [List.length_take]; omega),
    List.take_take, Nat.min_eq_left before]

/-- The values stand behind them. -/
theorem take_overwrite_end {start : Nat} {cells : List α} (written : start ≤ cells.length) :
    (overwrite start values cells).take (start + values.length) = cells.take start ++ values := by
  have length : (cells.take start ++ values).length = start + values.length := by
    rw [List.length_append, List.length_take, Nat.min_eq_left written]
  rw [overwrite, ← List.append_assoc, ← length]
  exact List.take_left

/-- A slice without capacity has room for nothing, and then its array is not written. -/
theorem modify_overwrite_of_cap (fits : s.len + values.length ≤ s.cap) (full : ¬ 0 < s.cap) :
    heap.modify s.array (overwrite s.len values) = heap := by
  have nothing : values = [] := List.eq_nil_of_length_eq_zero (by omega)
  have unchanged : overwrite s.len values = id := by
    funext cells
    simp [overwrite, nothing]
  rw [unchanged, List.modify_id]

/-- What is appended stands behind what the slice held. -/
theorem Holds.append {held : List α} (before : Holds heap s held) :
    Holds (Slices.append growth heap s values).1 (Slices.append growth heap s values).2
      (held ++ values) := by
  unfold Slices.append
  split
  · next fits =>
    by_cases room : 0 < s.cap
    · obtain ⟨cells, present, written⟩ := before.backed room
      have now : (heap.modify s.array (overwrite s.len values))[s.array]? =
          some (overwrite s.len values cells) := by
        rw [List.getElem?_modify_eq, present, Option.map_eq_map, Option.map_some]
      have beginning : cells.take s.len = held := by
        rw [← before.read_eq, read, present, Option.getD_some]
      have cellsNow := take_overwrite_end values written
      refine ⟨fun _ => ⟨_, now, ?_⟩, ?_⟩
      · have lengths := congrArg List.length cellsNow
        rw [List.length_take, List.length_append, List.length_take, Nat.min_eq_left written]
          at lengths
        show s.len + values.length ≤ _
        omega
      · rw [read, now, Option.getD_some, cellsNow, beginning]
    · have nothing : values = [] := List.eq_nil_of_length_eq_zero (by omega)
      have empty : held ++ values = [] := by
        rw [nothing, List.append_nil, ← before.read_eq, read_of_cap room]
      refine ⟨fun room' => absurd room' room, ?_⟩
      rw [empty]
      exact read_of_cap room
  · have cells : (heap ++ [read heap s ++ values])[heap.length]? = some (held ++ values) := by
      rw [List.getElem?_concat_length, before.read_eq]
    have length : (held ++ values).length = s.len + values.length := by
      rw [List.length_append, before.length]
    refine ⟨fun _ => ⟨_, cells, Nat.le_of_eq length.symm⟩, ?_⟩
    rw [read, cells, Option.getD_some, List.take_of_length_le (Nat.le_of_eq length)]

/-- Slices that are spared do not notice an append. -/
theorem Holds.append_spared {t : Slice} {held : List α} (other : Holds heap t held)
    (backed : Backed heap s) (spared : s.Spares t) :
    Holds (Slices.append growth heap s values).1 t held := by
  unfold Slices.append
  split
  · next fits =>
    by_cases room : 0 < s.cap
    · refine other.of_cells fun cells present written => ?_
      by_cases same : t.array = s.array
      · have before := spared room same
        obtain ⟨cells', present', written'⟩ := backed room
        obtain rfl : cells = cells' := by
          rw [← same, present] at present'
          exact Option.some.inj present'
        refine ⟨overwrite s.len values cells, ?_, take_overwrite values before written'⟩
        rw [same, List.getElem?_modify_eq, present', Option.map_eq_map, Option.map_some]
      · refine ⟨cells, ?_, rfl⟩
        rw [List.getElem?_modify_ne _ _ (Ne.symm same), present]
    · rw [modify_overwrite_of_cap values fits room]
      exact other
  · exact other.of_older (List.prefix_append _ _)

/-- An append leaves the arrays alone that are older than the one of the slice. -/
theorem prefix_append {older : Heap α} (grown : older <+: heap) (newer : s.From older.length) :
    older <+: (append growth heap s values).1 := by
  unfold append
  split
  · next fits =>
    by_cases room : 0 < s.cap
    · rw [List.prefix_iff_getElem?] at grown ⊢
      intro i inside
      have := newer room
      rw [List.getElem?_modify_ne _ _ (by omega)]
      exact grown i inside
    · rw [modify_overwrite_of_cap values fits room]
      exact grown
  · exact grown.trans (List.prefix_append _ _)

/-- The slice an append returns is not older than the one it was given. -/
theorem from_append {older : Heap α} (grown : older <+: heap) (newer : s.From older.length) :
    (append growth heap s values).2.From older.length := by
  unfold append
  split
  · exact newer
  · exact fun _ => grown.length_le

/-- An append spares everything that the append before it spared. -/
theorem spares_append {t : Slice} {held : List α} (other : Holds heap t held)
    (spared : s.Spares t) : (append growth heap s values).2.Spares t := by
  unfold append
  split
  · exact fun room same => Nat.le_trans (spared room same) (Nat.le_add_right _ _)
  · exact Slice.From.spares (fun _ => Nat.le_refl _) other.backed.array_lt

end Append

/-! ### Computations that make lists -/

/-- What a computation leaves behind that starts with one heap and ends with another: the lists
it has made, and a slice with its contents as the result. -/
structure Makes (before after : Heap α) (lists : List (Slice × List α)) (s : Slice)
    (values : List α) : Prop where
  older : before <+: after
  holds : Holds after s values
  newer : s.From before.length
  listsHold : ∀ list ∈ lists, Holds after list.1 list.2
  listsNewer : ∀ list ∈ lists, list.1.From before.length
  spares : ∀ list ∈ lists, s.Spares list.1

namespace Makes

variable {before between after : Heap α} {lists earlier later : List (Slice × List α)}
  {s t : Slice} {values others : List α}

/-- The nil slice is made without a change to the heap. -/
theorem nil (heap : Heap α) : Makes heap heap [] .nil [] where
  older := List.prefix_refl heap
  holds := holds_nil heap
  newer := fun room => absurd room (by decide)
  listsHold := by simp
  listsNewer := by simp
  spares := by simp

/-- A literal is made in an array of its own. -/
theorem literal (heap : Heap α) (values : List α) :
    Makes heap (literal heap values).1 [] (Slices.literal heap values).2 values where
  older := List.prefix_append heap _
  holds := holds_literal heap values
  newer := fun _ => Nat.le_refl _
  listsHold := by simp
  listsNewer := by simp
  spares := by simp

/-- The result may be one of the lists. -/
theorem record (made : Makes before after lists s values) :
    Makes before after ((s, values) :: lists) s values where
  older := made.older
  holds := made.holds
  newer := made.newer
  listsHold := List.forall_mem_cons.2 ⟨made.holds, made.listsHold⟩
  listsNewer := List.forall_mem_cons.2 ⟨made.newer, made.listsNewer⟩
  spares := List.forall_mem_cons.2 ⟨fun _ _ => Nat.le_refl _, made.spares⟩

/-- Nothing needs to be returned. -/
theorem discard (made : Makes before after lists s values) :
    Makes before after lists .nil [] where
  older := made.older
  holds := holds_nil after
  newer := fun room => absurd room (by decide)
  listsHold := made.listsHold
  listsNewer := made.listsNewer
  spares := fun _ _ room => absurd room (by decide)

/-- Of two computations that run one after the other, the result of the second is returned. -/
theorem second (left : Makes before between earlier s values)
    (right : Makes between after later t others) :
    Makes before after (later ++ earlier) t others where
  older := left.older.trans right.older
  holds := right.holds
  newer := fun room => Nat.le_trans left.older.length_le (right.newer room)
  listsHold := List.forall_mem_append.2
    ⟨right.listsHold, fun list made => (left.listsHold list made).of_older right.older⟩
  listsNewer := List.forall_mem_append.2
    ⟨fun list made room => Nat.le_trans left.older.length_le (right.listsNewer list made room),
      left.listsNewer⟩
  spares := List.forall_mem_append.2
    ⟨right.spares, fun list made => right.newer.spares (left.listsHold list made).backed.array_lt⟩

/-- The result of the first is returned, with the lists of the second in newer arrays. -/
theorem first (left : Makes before between earlier s values)
    (right : Makes between after later t others) :
    Makes before after (later ++ earlier) s values where
  older := left.older.trans right.older
  holds := left.holds.of_older right.older
  newer := left.newer
  listsHold := (left.second right).listsHold
  listsNewer := (left.second right).listsNewer
  spares := List.forall_mem_append.2
    ⟨fun list made => (right.listsNewer list made).spared left.holds.backed.array_lt, left.spares⟩

/-- The result is appended to. -/
theorem append (growth : Growth) (others : List α) (made : Makes before after lists s values) :
    Makes before (Slices.append growth after s others).1 lists
      (Slices.append growth after s others).2 (values ++ others) where
  older := prefix_append growth others made.older made.newer
  holds := made.holds.append growth others
  newer := from_append growth others made.older made.newer
  listsHold := fun list member =>
    (made.listsHold list member).append_spared growth others made.holds.backed
      (made.spares list member)
  listsNewer := made.listsNewer
  spares := fun list member =>
    spares_append growth others (made.listsHold list member) (made.spares list member)

end Makes

end FluffyCore.Library.Slices
