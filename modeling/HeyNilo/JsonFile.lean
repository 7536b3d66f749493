import Mathlib.Data.List.Basic

namespace JsonFile

variable {α : Type*}

/-- What parsing a text gives: a value, `null`, or an exception. -/
inductive Parsed (α : Type*) where
  | value (a : α)
  | null
  | threw

structure Codec (α : Type*) where
  toJson : α → List Char
  fromJson : List Char → Parsed α

/-- The parser inverts the serialisation of `a` and takes no value from a proper prefix of it. -/
structure Codec.Exact (c : Codec α) (a : α) : Prop where
  inverts : c.fromJson (c.toJson a) = .value a
  cut : ∀ k < (c.toJson a).length, ∀ b, c.fromJson ((c.toJson a).take k) ≠ .value b

/-- Read a file, or the default where it is missing, empty or corrupt. -/
def load (c : Codec α) (default : α) : Option (List Char) → α
  | none => default
  | some text =>
    match c.fromJson text with
    | .value a => a
    | .null | .threw => default

/-- The content of a file whose rewriting was interrupted: not yet opened, or truncated and the
first `kept` characters of the new text written. -/
def interrupted (old : Option (List Char)) (new : List Char) : Option Nat → Option (List Char)
  | none => old
  | some kept => some (new.take kept)

inductive WriteOutcome where
  | ok
  | failed (kept : Option Nat)
deriving DecidableEq, Repr

/-- Rewriting a file, and whether it reports success. -/
def write (old : Option (List Char)) (new : List Char) : WriteOutcome → Bool × Option (List Char)
  | .ok => (true, some new)
  | .failed kept => (false, interrupted old new kept)

theorem load_toJson {c : Codec α} {default a : α} (h : c.Exact a) :
    load c default (some (c.toJson a)) = a := by
  simp [load, h.inverts]

theorem load_take {c : Codec α} {default a : α} {k : Nat} (h : c.Exact a)
    (hk : k < (c.toJson a).length) :
    load c default (some ((c.toJson a).take k)) = default := by
  have hcut := h.cut k hk
  unfold load
  cases hp : c.fromJson ((c.toJson a).take k) with
  | value b => exact absurd hp (hcut b)
  | null => simp [hp]
  | threw => simp [hp]

/-- After an interrupted rewriting a file loads as before, as the new value, or as the default. -/
theorem load_interrupted {c : Codec α} {default a : α} (h : c.Exact a) (old : Option (List Char))
    (kept : Option Nat) :
    load c default (interrupted old (c.toJson a) kept) =
      match kept with
      | none => load c default old
      | some k => if k < (c.toJson a).length then default else a := by
  cases kept with
  | none => rfl
  | some k =>
    simp only [interrupted]
    split
    next hk => exact load_take h hk
    next hk => rw [List.take_of_length_le (by omega), load_toJson h]

/-- The interrupted rewriting is safe exactly if it did not begin, was complete, or the default is
one of the two values. -/
theorem load_interrupted_iff {β : Type*} {c : Codec α} {default a : α} (view : α → β)
    (h : c.Exact a) (old : Option (List Char)) (kept : Option Nat) :
    (view (load c default (interrupted old (c.toJson a) kept)) = view (load c default old) ∨
      view (load c default (interrupted old (c.toJson a) kept)) = view a) ↔
      ((∀ k, kept = some k → (c.toJson a).length ≤ k) ∨
        view default = view (load c default old) ∨ view default = view a) := by
  rw [load_interrupted h]
  cases kept with
  | none => simp
  | some k =>
    by_cases hk : k < (c.toJson a).length
    · simp [hk, Nat.not_le.mpr hk]
    · simp [hk, Nat.not_lt.mp hk]

/-- A file beside that of a store which has none before it first saves: the same file, or one that
only stands for the default. -/
def LoadsAlike (c : Codec α) (default : α) (file bare : Option (List Char)) : Prop :=
  file = bare ∨ bare = none ∧ load c default file = default

theorem LoadsAlike.load_eq {c : Codec α} {default : α} {file bare : Option (List Char)}
    (h : LoadsAlike c default file bare) : load c default file = load c default bare := by
  rcases h with rfl | ⟨rfl, h⟩
  · rfl
  · exact h

theorem LoadsAlike.write {c : Codec α} {default : α} {file bare : Option (List Char)}
    (h : LoadsAlike c default file bare) (new : List Char) (outcome : WriteOutcome) :
    (write file new outcome).1 = (write bare new outcome).1 ∧
      LoadsAlike c default (write file new outcome).2 (write bare new outcome).2 := by
  match outcome with
  | .ok | .failed (some _) => exact ⟨rfl, .inl rfl⟩
  | .failed none => exact ⟨rfl, h⟩

end JsonFile
