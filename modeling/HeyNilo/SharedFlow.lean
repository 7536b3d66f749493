import Mathlib.Data.List.Basic
import Mathlib.Order.Basic
import Mathlib.Tactic.Common

/-- A flow that replays nothing and drops its oldest value on overflow, as its collectors share it:
`head` is the index of the first buffered value, a collector's slot that of its next one. -/
structure SharedFlow (α : Type*) where
  head : Nat
  buffer : List α
  slots : List (Option Nat)
deriving DecidableEq, Repr

namespace SharedFlow

variable {α : Type*} {capacity : Nat} {f g : SharedFlow α} {i j k : Nat} {v : α} {l : List α}

def empty : SharedFlow α := ⟨0, [], []⟩

def endIndex (f : SharedFlow α) : Nat := f.head + f.buffer.length

def minIndex (f : SharedFlow α) : Nat := (f.slots.filterMap id).foldr min f.endIndex

/-- Values that every collector has read leave the buffer. -/
def trim (f : SharedFlow α) : SharedFlow α :=
  { f with head := f.minIndex, buffer := f.buffer.drop (f.minIndex - f.head) }

/-- A collector that has not read the oldest value misses it. -/
def dropOldest (f : SharedFlow α) : SharedFlow α where
  head := f.head + 1
  buffer := f.buffer.tail
  slots := f.slots.map (Option.map (max (f.head + 1)))

/-- Without collectors a value is not buffered at all. -/
def emit (capacity : Nat) (f : SharedFlow α) (v : α) : SharedFlow α :=
  if f.slots.any (·.isSome) then
    let f := { f with buffer := f.buffer ++ [v] }
    if capacity < f.buffer.length then f.dropOldest else f
  else f

/-- A new collector starts behind all buffered values; its slot is the next one. -/
def subscribe (f : SharedFlow α) : SharedFlow α := { f with slots := f.slots ++ [some f.endIndex] }

def take (f : SharedFlow α) (i : Nat) : Option (α × SharedFlow α) :=
  f.slots[i]?.join.bind fun k =>
    f.buffer[k - f.head]?.map fun v => (v, { f with slots := f.slots.set i (some (k + 1)) }.trim)

def leave (f : SharedFlow α) (i : Nat) : SharedFlow α := { f with slots := f.slots.set i none }.trim

/-- What the collector of a slot has before it. -/
def unread (f : SharedFlow α) (i : Nat) : Option (List α) :=
  f.slots[i]?.join.map fun k => f.buffer.drop (k - f.head)

structure Valid (capacity : Nat) (f : SharedFlow α) : Prop where
  bounded : f.buffer.length ≤ capacity
  index : ∀ i k : Nat, f.slots[i]? = some (some k) → f.head ≤ k ∧ k ≤ f.endIndex

theorem unread_eq_some_iff : f.unread i = some l ↔
    ∃ k, f.slots[i]? = some (some k) ∧ l = f.buffer.drop (k - f.head) := by
  rw [unread, Option.map_eq_some_iff]
  refine exists_congr fun k => and_congr Option.join_eq_some_iff ?_
  exact eq_comm

theorem empty_valid : Valid capacity (empty : SharedFlow α) where
  bounded := Nat.zero_le _
  index _ _ h := nomatch h

theorem foldr_min_le {d k : Nat} {ks : List Nat} (hk : k ∈ ks) : ks.foldr min d ≤ k := by
  induction ks with
  | nil => cases hk
  | cons a ks ih =>
    rcases List.mem_cons.mp hk with rfl | hk
    · exact Nat.min_le_left _ _
    · exact Nat.le_trans (Nat.min_le_right _ _) (ih hk)

theorem foldr_min_le_default {d : Nat} (ks : List Nat) : ks.foldr min d ≤ d := by
  induction ks with
  | nil => exact Nat.le_refl d
  | cons a ks ih => exact Nat.le_trans (Nat.min_le_right _ _) ih

theorem le_foldr_min {d k : Nat} {ks : List Nat} (hd : k ≤ d) (hks : ∀ a ∈ ks, k ≤ a) :
    k ≤ ks.foldr min d := by
  induction ks with
  | nil => exact hd
  | cons a ks ih =>
    obtain ⟨ha, hks⟩ := List.forall_mem_cons.mp hks
    exact Nat.le_min.mpr ⟨ha, ih hks⟩

theorem minIndex_le (h : f.slots[i]? = some (some k)) : f.minIndex ≤ k :=
  foldr_min_le (List.mem_filterMap.mpr ⟨some k, List.mem_of_getElem? h, rfl⟩)

theorem minIndex_le_endIndex (f : SharedFlow α) : f.minIndex ≤ f.endIndex :=
  foldr_min_le_default _

theorem head_le_minIndex (h : ∀ i k : Nat, f.slots[i]? = some (some k) → f.head ≤ k) :
    f.head ≤ f.minIndex := by
  refine le_foldr_min (Nat.le_add_right _ _) fun k hk => ?_
  obtain ⟨slot, hslot, rfl⟩ := List.mem_filterMap.mp hk
  obtain ⟨i, hi⟩ := List.mem_iff_getElem?.mp hslot
  exact h i k hi

theorem endIndex_trim (h : Valid capacity f) : f.trim.endIndex = f.endIndex := by
  have hhead := head_le_minIndex fun i k hk => (h.index i k hk).1
  have hend := f.minIndex_le_endIndex
  simp only [endIndex, trim, List.length_drop] at *
  omega

theorem Valid.trim (h : Valid capacity f) : Valid capacity f.trim where
  bounded := by
    rw [SharedFlow.trim, List.length_drop]
    exact Nat.le_trans (Nat.sub_le _ _) h.bounded
  index i k hk := by
    rw [endIndex_trim h]
    exact ⟨minIndex_le hk, (h.index i k hk).2⟩

theorem unread_trim (h : Valid capacity f) (i : Nat) : f.trim.unread i = f.unread i := by
  unfold unread
  refine Option.map_congr fun k hk => ?_
  have hslot : f.slots[i]? = some (some k) := Option.join_eq_some_iff.mp hk
  have hhead := head_le_minIndex fun i k hk => (h.index i k hk).1
  have hmin := minIndex_le hslot
  simp only [SharedFlow.trim, List.drop_drop]
  congr 1
  omega

theorem subscribe_valid (h : Valid capacity f) : Valid capacity f.subscribe where
  bounded := h.bounded
  index i k hk := by
    rcases Nat.lt_trichotomy i f.slots.length with hi | rfl | hi
    · rw [subscribe, List.getElem?_append_left hi] at hk
      exact h.index i k hk
    · simp only [subscribe, List.getElem?_concat_length, Option.some.injEq] at hk
      rw [← hk]
      exact ⟨Nat.le_add_right _ _, Nat.le_refl _⟩
    · rw [subscribe, List.getElem?_eq_none (by simp; omega)] at hk
      cases hk

theorem unread_subscribe (f : SharedFlow α) : f.subscribe.unread f.slots.length = some [] := by
  refine unread_eq_some_iff.mpr ⟨f.endIndex, by simp [subscribe], ?_⟩
  simp [subscribe, endIndex]

theorem unread_subscribe_of_ne (hi : i ≠ f.slots.length) : f.subscribe.unread i = f.unread i := by
  have hslot : f.subscribe.slots[i]?.join = f.slots[i]?.join := by
    rcases Nat.lt_or_gt_of_ne hi with hi | hi
    · rw [subscribe, List.getElem?_append_left hi]
    · rw [subscribe, List.getElem?_eq_none (by simp; omega), List.getElem?_eq_none (by omega)]
  rw [unread, hslot]
  rfl

theorem slots_dropOldest : f.dropOldest.slots[i]? = some (some k) ↔
    ∃ k', f.slots[i]? = some (some k') ∧ k = max (f.head + 1) k' := by
  rw [dropOldest, List.getElem?_map, Option.map_eq_some_iff]
  constructor
  · rintro ⟨slot, hslot, hk⟩
    obtain ⟨k', rfl, hk⟩ := Option.map_eq_some_iff.mp hk
    exact ⟨k', hslot, (Option.some.inj hk).symm⟩
  · rintro ⟨k', hslot, rfl⟩
    exact ⟨some k', hslot, rfl⟩

theorem dropOldest_valid (h : Valid (capacity + 1) f) (hne : f.buffer ≠ []) :
    Valid capacity f.dropOldest where
  bounded := by
    rw [dropOldest, List.length_tail]
    exact Nat.sub_le_of_le_add h.bounded
  index i k hk := by
    obtain ⟨k', hslot, rfl⟩ := slots_dropOldest.mp hk
    have hlen := List.length_pos_iff.mpr hne
    have hend := (h.index i k' hslot).2
    simp only [endIndex, dropOldest, List.length_tail] at hend ⊢
    omega

/-- Of a full buffer a collector loses its oldest value, if that is one it has not read. -/
theorem unread_dropOldest (h : Valid capacity f) (hl : f.unread i = some l) :
    f.dropOldest.unread i = some (if l.length < f.buffer.length then l else l.tail) := by
  obtain ⟨k, hslot, rfl⟩ := unread_eq_some_iff.mp hl
  refine unread_eq_some_iff.mpr ⟨max (f.head + 1) k, slots_dropOldest.mpr ⟨k, hslot, rfl⟩, ?_⟩
  obtain ⟨hhead, hend⟩ := h.index i k hslot
  rw [endIndex] at hend
  simp only [dropOldest, List.length_drop, ← List.drop_one, List.drop_drop]
  split
  · congr 1
    omega
  · congr 1
    omega

def append (f : SharedFlow α) (v : α) : SharedFlow α := { f with buffer := f.buffer ++ [v] }

theorem append_valid (h : Valid capacity f) (v : α) : Valid (capacity + 1) (f.append v) where
  bounded := by
    rw [append, List.length_append]
    exact Nat.add_le_add_right h.bounded 1
  index i k hk := by
    obtain ⟨hhead, hend⟩ := h.index i k hk
    simp only [endIndex, append, List.length_append] at hend ⊢
    omega

theorem unread_append (h : Valid capacity f) (hl : f.unread i = some l) (v : α) :
    (f.append v).unread i = some (l ++ [v]) := by
  obtain ⟨k, hslot, rfl⟩ := unread_eq_some_iff.mp hl
  refine unread_eq_some_iff.mpr ⟨k, hslot, ?_⟩
  have hend := (h.index i k hslot).2
  rw [endIndex] at hend
  exact (List.drop_append_of_le_length (by omega)).symm

theorem emit_valid (h : Valid capacity f) (v : α) : Valid capacity (emit capacity f v) := by
  unfold emit
  split
  · have happend := append_valid h v
    dsimp only
    split
    · exact dropOldest_valid happend (List.append_ne_nil_of_right_ne_nil _ (by simp))
    · rename_i hroom
      exact ⟨Nat.not_lt.mp hroom, happend.index⟩
  · exact h

theorem isSome_of_unread (h : f.unread i = some l) : f.slots.any (·.isSome) = true := by
  obtain ⟨k, hslot, -⟩ := unread_eq_some_iff.mp h
  exact List.any_eq_true.mpr ⟨some k, List.mem_of_getElem? hslot, rfl⟩

/-- A collector gets every value, up to those that overflow its own part of the buffer. -/
theorem unread_emit (h : Valid capacity f) (hl : f.unread i = some l) (v : α) :
    (emit capacity f v).unread i =
      some (if l.length < capacity then l ++ [v] else (l ++ [v]).tail) := by
  have happend := unread_append h hl v
  have hvalid := append_valid h v
  obtain ⟨k, hslot, hdrop⟩ := unread_eq_some_iff.mp hl
  have hlen : l.length ≤ f.buffer.length := by rw [hdrop, List.length_drop]; exact Nat.sub_le _ _
  unfold emit
  rw [if_pos (isSome_of_unread hl)]
  dsimp only
  split
  · rename_i hover
    have hover' : capacity < f.buffer.length + 1 := by simpa using hover
    have hfull : f.buffer.length = capacity := Nat.le_antisymm h.bounded (by omega)
    have hdropped := unread_dropOldest hvalid happend
    rw [show { f with buffer := f.buffer ++ [v] } = f.append v from rfl, hdropped]
    simp only [append, List.length_append, List.length_singleton, hfull, Nat.add_lt_add_iff_right]
  · rename_i hroom
    have hroom' : f.buffer.length + 1 ≤ capacity := by simpa using hroom
    rw [if_pos (by omega)]
    exact happend

/-- Move the slot of a collector. -/
def move (f : SharedFlow α) (i : Nat) (slot : Option Nat) : SharedFlow α :=
  { f with slots := f.slots.set i slot }

theorem move_valid (h : Valid capacity f) {slot : Option Nat}
    (hslot : ∀ k, slot = some k → f.head ≤ k ∧ k ≤ f.endIndex) : Valid capacity (f.move i slot) where
  bounded := h.bounded
  index j k hk := by
    rw [move, List.getElem?_set] at hk
    split at hk
    · split at hk
      · exact hslot k (Option.some.inj hk)
      · cases hk
    · exact h.index j k hk

theorem unread_move_of_ne {slot : Option Nat} (hj : j ≠ i) :
    (f.move i slot).unread j = f.unread j := by
  unfold unread move
  rw [List.getElem?_set_ne hj.symm]

/-- A collector takes the first value before it, and nothing changes for the others. -/
theorem take_spec (h : Valid capacity f) (ht : f.take i = some (v, g)) :
    Valid capacity g ∧ (∃ rest, f.unread i = some (v :: rest) ∧ g.unread i = some rest) ∧
      ∀ j, j ≠ i → g.unread j = f.unread j := by
  obtain ⟨k, hk, ht⟩ := Option.bind_eq_some_iff.mp ht
  obtain ⟨w, hw, heq⟩ := Option.map_eq_some_iff.mp ht
  cases heq
  have hslot : f.slots[i]? = some (some k) := Option.join_eq_some_iff.mp hk
  obtain ⟨hhead, hend⟩ := h.index i k hslot
  obtain ⟨hlt, hv⟩ := List.getElem?_eq_some_iff.mp hw
  obtain ⟨hi, -⟩ := List.getElem?_eq_some_iff.mp hslot
  have hmoved : Valid capacity (f.move i (some (k + 1))) :=
    move_valid h fun k' hk' => by
      cases hk'
      rw [endIndex]
      omega
  refine ⟨hmoved.trim, ⟨f.buffer.drop (k + 1 - f.head), ?_, ?_⟩, fun j hj => ?_⟩
  · refine unread_eq_some_iff.mpr ⟨k, hslot, ?_⟩
    rw [List.drop_eq_getElem_cons hlt, hv, Nat.succ_sub hhead]
  · refine (unread_trim hmoved i).trans (unread_eq_some_iff.mpr ⟨k + 1, ?_, rfl⟩)
    rw [move, List.getElem?_set_self hi]
  · exact (unread_trim hmoved j).trans (unread_move_of_ne hj)

theorem leave_spec (h : Valid capacity f) (i : Nat) :
    Valid capacity (f.leave i) ∧ (f.leave i).unread i = none ∧
      ∀ j, j ≠ i → (f.leave i).unread j = f.unread j := by
  have hmoved : Valid capacity (f.move i none) := move_valid h fun k hk => nomatch hk
  refine ⟨hmoved.trim, ?_, fun j hj => (unread_trim hmoved j).trans (unread_move_of_ne hj)⟩
  refine (unread_trim hmoved i).trans (Option.map_eq_none_iff.mpr ?_)
  rw [move, List.getElem?_set]
  simp only [if_true]
  split <;> rfl

end SharedFlow
