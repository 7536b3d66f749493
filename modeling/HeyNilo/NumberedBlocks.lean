import Mathlib.Data.List.Basic

namespace NumberedBlocks

variable {α : Type*} {size : Nat}

/-- Consecutive numbers that fill whole blocks. -/
def IsRun (size : Nat) (numbers : List Nat) : Prop :=
  ∃ first blocks, numbers = List.range' first (size * blocks)

theorem IsRun.of_append {front block : List Nat} (hlen : block.length = size)
    (h : IsRun size (front ++ block)) : IsRun size front := by
  obtain ⟨first, blocks, h⟩ := h
  obtain ⟨k, hk, hfront, hblock⟩ := List.range'_eq_append_iff.mp h.symm
  have hrest : size * blocks - k = size := by
    have hcount := congrArg List.length hblock
    rw [hlen, List.length_range'] at hcount
    exact hcount.symm
  refine ⟨first, blocks - 1, ?_⟩
  rw [hfront, Nat.mul_sub_one]
  congr 1
  omega

theorem length_mod_of_isRun {numbers : List Nat} (h : IsRun size numbers) :
    numbers.length % size = 0 := by
  obtain ⟨first, blocks, rfl⟩ := h
  rw [List.length_range', Nat.mul_mod_right]

/-- In a run the numbers after a nonempty range go on from it. -/
theorem next_of_isRun {p m y : Nat} {ys : List Nat} (hm : 0 < m)
    (h : IsRun size (List.range' p m ++ y :: ys)) : y = p + m := by
  obtain ⟨first, blocks, h⟩ := h
  obtain ⟨k, -, hfront, hrest⟩ := List.range'_eq_append_iff.mp h.symm
  have hk : k = m := by simpa using (congrArg List.length hfront).symm
  have hfirst : first = p := by
    cases m with
    | zero => exact absurd hm (Nat.lt_irrefl 0)
    | succ m =>
      rw [hk, List.range'_succ, List.range'_succ] at hfront
      exact (List.cons.inj hfront).1.symm
  obtain ⟨hy, -, -⟩ := List.range'_eq_cons_iff.mp hrest.symm
  rw [← hy, hk, hfirst, Nat.mul_one]

/-- Block `k` carries the numbers from `size * k` on. -/
def Numbered (number : α → Nat) (size : Nat) (blocks : List (List α)) : Prop :=
  ∀ k block, blocks[k]? = some block → block.map number = List.range' (size * k) size

variable {number : α → Nat} {blocks before run after : List (List α)} {block : List α}

theorem Numbered.nil : Numbered number size [] := by
  intro k block hb
  simp at hb

theorem Numbered.append (h : Numbered number size blocks)
    (hblock : block.map number = List.range' (size * blocks.length) size) :
    Numbered number size (blocks ++ [block]) := by
  intro k other hk
  by_cases hlt : k < blocks.length
  · rw [List.getElem?_append_left hlt] at hk
    exact h k other hk
  · obtain ⟨hbound, -⟩ := List.getElem?_eq_some_iff.mp hk
    have hlast : k = blocks.length := by
      rw [List.length_append, List.length_singleton] at hbound
      omega
    subst hlast
    rw [List.getElem?_concat_length] at hk
    cases Option.some.inj hk
    exact hblock

theorem Numbered.length_eq (h : Numbered number size blocks) (hb : block ∈ blocks) :
    block.length = size := by
  obtain ⟨k, hk⟩ := List.mem_iff_getElem?.mp hb
  simpa using congrArg List.length (h k block hk)

/-- The numbers of consecutive blocks. -/
theorem Numbered.map_flatten (h : Numbered number size (before ++ run ++ after)) :
    run.flatten.map number = List.range' (size * before.length) (size * run.length) := by
  induction run generalizing before with
  | nil => simp
  | cons block run ih =>
    have hblock : block.map number = List.range' (size * before.length) size :=
      h before.length block (by simp)
    have hrest : Numbered number size ((before ++ [block]) ++ run ++ after) := by simpa using h
    have hnext : size * (before ++ [block]).length = size * before.length + size := by
      rw [List.length_append, List.length_singleton, Nat.mul_add, Nat.mul_one]
    rw [List.flatten_cons, List.map_append, hblock, ih hrest, hnext, List.range'_append_1,
      List.length_cons, Nat.mul_add, Nat.mul_one, Nat.add_comm size]

theorem Numbered.isRun (h : Numbered number size (before ++ run ++ after)) :
    IsRun size (run.flatten.map number) := ⟨_, _, h.map_flatten⟩

theorem length_flatten_of_size (hsize : ∀ block ∈ blocks, block.length = size) :
    blocks.flatten.length = size * blocks.length := by
  induction blocks with
  | nil => simp
  | cons block blocks ih =>
    obtain ⟨hblock, hrest⟩ := List.forall_mem_cons.mp hsize
    rw [List.flatten_cons, List.length_append, hblock, ih hrest, List.length_cons, Nat.mul_add,
      Nat.mul_one, Nat.add_comm size]

theorem drop_flatten_of_size (hsize : ∀ block ∈ blocks, block.length = size) (k : Nat) :
    blocks.flatten.drop (size * k) = (blocks.drop k).flatten := by
  induction blocks generalizing k with
  | nil => simp
  | cons block blocks ih =>
    obtain ⟨hblock, hrest⟩ := List.forall_mem_cons.mp hsize
    cases k with
    | zero => simp
    | succ k =>
      rw [List.flatten_cons, Nat.mul_add, Nat.mul_one, Nat.add_comm, ← List.drop_drop, ← hblock,
        List.drop_left, hblock, ih hrest, List.drop_succ_cons]

/-- A buffer of whole blocks that keeps its last `size * k` elements keeps its last `k` blocks. -/
theorem keep_last_blocks (hsize : ∀ block ∈ blocks, block.length = size) (k : Nat) :
    blocks.flatten.drop (blocks.flatten.length - size * k) =
      (blocks.drop (blocks.length - k)).flatten := by
  rw [length_flatten_of_size hsize, ← Nat.mul_sub, drop_flatten_of_size hsize]

end NumberedBlocks
