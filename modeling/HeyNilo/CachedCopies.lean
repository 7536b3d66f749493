import Mathlib.Data.List.Forall2
import Mathlib.Logic.Function.Basic

namespace CachedCopies

/-- Originals, and the copies that are kept of them. -/
structure Cache (κ β : Type*) where
  original : κ → Option β
  copy : κ → Option β

variable {κ β : Type*} [DecidableEq κ]

namespace Cache

def put (c : Cache κ β) (k : κ) (content : Option β) : Cache κ β :=
  { c with copy := Function.update c.copy k content }

/-- The copy is the original, if there is one. -/
def Current (c : Cache κ β) (k : κ) : Prop := ∀ m ∈ c.original k, c.copy k = some m

/-- Every copy that passes the check against its original is the original. -/
def Sound (passes : β → β → Prop) (keys : List κ) (c : Cache κ β) : Prop :=
  ∀ k ∈ keys, ∀ m ∈ c.original k, ∀ x ∈ c.copy k, passes m x → x = m

@[simp] theorem copy_put_self (c : Cache κ β) (k : κ) (content : Option β) :
    (c.put k content).copy k = content := Function.update_self ..

theorem copy_put_of_ne {k l : κ} (h : l ≠ k) (c : Cache κ β) (content : Option β) :
    (c.put k content).copy l = c.copy l := Function.update_of_ne h ..

end Cache

open Cache

/-- What refreshing one copy may do, with what it reports. A copy that passes, or whose original is
missing, may be kept. A refresh that fails leaves the copy alone or what `cuts` allows; only a forced
one writes over a copy that passes. -/
inductive Refreshed (passes : β → β → Prop) (cuts : κ → Option β → Prop) (forced : Prop)
    (c : Cache κ β) (k : κ) : Bool → Cache κ β → Prop where
  | kept (h : ∀ m ∈ c.original k, ∃ x ∈ c.copy k, passes m x) :
      Refreshed passes cuts forced c k true c
  | skipped : Refreshed passes cuts forced c k false c
  | cut (y : Option β) (hcut : cuts k y)
      (hstale : forced ∨ ∀ m ∈ c.original k, ∀ x ∈ c.copy k, ¬ passes m x) :
      Refreshed passes cuts forced c k false (c.put k y)
  | whole (m : β) (hm : m ∈ c.original k)
      (hstale : forced ∨ ∀ x ∈ c.copy k, ¬ passes m x) :
      Refreshed passes cuts forced c k true (c.put k (some m))

/-- Refreshing some copies one after the other, up to the end or to where it is stopped. -/
inductive RefreshedAll (passes : β → β → Prop) (cuts : κ → Option β → Prop) (forced : Prop) :
    Cache κ β → List κ → List Bool → Cache κ β → Prop where
  | stopped (c : Cache κ β) (keys : List κ) : RefreshedAll passes cuts forced c keys [] c
  | cons {c d e : Cache κ β} {k : κ} {keys : List κ} {done : Bool} {reports : List Bool}
      (head : Refreshed passes cuts forced c k done d)
      (tail : RefreshedAll passes cuts forced d keys reports e) :
      RefreshedAll passes cuts forced c (k :: keys) (done :: reports) e

/-- No content that a cut refresh may leave passes for an original that it is not. -/
def Harmless (passes : β → β → Prop) (cuts : κ → Option β → Prop) (original : κ → Option β) : Prop :=
  ∀ k y, cuts k y → ∀ m ∈ original k, ∀ x ∈ y, passes m x → x = m

variable {passes : β → β → Prop} {cuts : κ → Option β → Prop} {forced : Prop}
  {c d : Cache κ β} {k l : κ} {keys order : List κ} {done : Bool} {reports : List Bool}

namespace Refreshed

section

variable (h : Refreshed passes cuts forced c k done d)
include h

theorem original_eq : d.original = c.original := by
  cases h <;> rfl

theorem copy_of_ne (hne : l ≠ k) : d.copy l = c.copy l := by
  cases h with
  | kept | skipped => rfl
  | cut | whole => exact copy_put_of_ne hne ..

theorem sound (hcuts : Harmless passes cuts c.original) (hc : Sound passes keys c) :
    Sound passes keys d := by
  intro l hl m hm x hx hpasses
  rw [h.original_eq] at hm
  by_cases hne : l = k
  · subst hne
    cases h with
    | kept | skipped => exact hc l hl m hm x hx hpasses
    | cut y hcut =>
      rw [copy_put_self] at hx
      exact hcuts l y hcut m hm x hx hpasses
    | whole m' hm' =>
      rw [copy_put_self] at hx
      exact (Option.some.inj hx).symm.trans (Option.mem_unique hm' hm)
  · exact hc l hl m hm x (h.copy_of_ne hne ▸ hx) hpasses

theorem current (hc : Sound passes keys c) (hk : k ∈ keys) (hdone : done = true) :
    d.Current k := by
  intro m hm
  rw [h.original_eq] at hm
  cases h with
  | skipped | cut => cases hdone
  | kept hkept =>
    obtain ⟨x, hx, hpasses⟩ := hkept m hm
    rw [← hc k hk m hm x hx hpasses]
    exact hx
  | whole m' hm' => rw [copy_put_self, Option.mem_unique hm' hm]

/-- A copy that passes is not looked at again, unless that is forced. -/
theorem keeps_passing (hforced : ¬ forced) {m x : β} (hm : m ∈ c.original l) (hx : x ∈ c.copy l)
    (hpasses : passes m x) : x ∈ d.copy l := by
  by_cases hne : l = k
  · subst hne
    cases h with
    | kept | skipped => exact hx
    | cut y hcut hstale => exact absurd hpasses (hstale.resolve_left hforced m hm x hx)
    | whole m' hm' hstale =>
      cases Option.mem_unique hm' hm
      exact absurd hpasses (hstale.resolve_left hforced x hx)
  · exact h.copy_of_ne hne ▸ hx

end

end Refreshed

namespace RefreshedAll

section

variable (h : RefreshedAll passes cuts forced c order reports d)
include h

theorem original_eq : d.original = c.original := by
  induction h with
  | stopped => rfl
  | cons head _ ih => exact ih.trans head.original_eq

theorem copy_of_notMem (hl : l ∉ order) : d.copy l = c.copy l := by
  induction h with
  | stopped => rfl
  | cons head _ ih =>
    obtain ⟨hne, hmore⟩ := List.ne_and_not_mem_of_not_mem_cons hl
    exact (ih hmore).trans (head.copy_of_ne hne)

theorem sound (hcuts : Harmless passes cuts c.original) (hc : Sound passes keys c) :
    Sound passes keys d := by
  induction h with
  | stopped => exact hc
  | cons head _ ih => exact ih (head.original_eq ▸ hcuts) (head.sound hcuts hc)

theorem keeps_passing (hforced : ¬ forced) {m x : β} (hm : m ∈ c.original l) (hx : x ∈ c.copy l)
    (hpasses : passes m x) : x ∈ d.copy l := by
  induction h with
  | stopped => exact hx
  | cons head _ ih =>
    exact ih (head.original_eq ▸ hm) (head.keeps_passing hforced hm hx hpasses)

/-- Where every original was reported as copied, all copies are current. -/
theorem current (hnodup : order.Nodup) (hsub : ∀ k ∈ order, k ∈ keys)
    (hcuts : Harmless passes cuts c.original) (hc : Sound passes keys c)
    (hreports : List.Forall₂ (fun k done => (c.original k).isSome = true → done = true) order
      reports) : ∀ k ∈ order, d.Current k := by
  induction h with
  | stopped =>
    cases hreports
    exact fun k hk => absurd hk List.not_mem_nil
  | @cons c d e k order done reports head tail ih =>
    obtain ⟨hk, hnodup⟩ := List.nodup_cons.mp hnodup
    obtain ⟨hdone, hreports⟩ := List.forall₂_cons.mp hreports
    obtain ⟨hkey, hsub⟩ := List.forall_mem_cons.mp hsub
    refine List.forall_mem_cons.mpr ⟨fun m hm => ?_, ?_⟩
    · rw [tail.original_eq] at hm
      have hpresent : (c.original k).isSome = true := Option.isSome_of_mem (head.original_eq ▸ hm)
      rw [tail.copy_of_notMem hk]
      exact head.current hc hkey (hdone hpresent) m hm
    · exact ih hnodup hsub (head.original_eq ▸ hcuts) (head.sound hcuts hc)
        (head.original_eq ▸ hreports)

end

end RefreshedAll

end CachedCopies
