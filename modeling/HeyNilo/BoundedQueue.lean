import HeyNilo.Machine
import Mathlib.Data.List.Basic

namespace BoundedQueue

variable {α : Type*} {capacity : Option Nat}

/-- A full queue refuses what is pushed; without a capacity it is never full. -/
def push (capacity : Option Nat) (queue : List α) (x : α) : List α :=
  if capacity.all (queue.length < ·) then queue ++ [x] else queue

/-- The elements that find room, pushed one after the other. -/
def accepted (capacity : Option Nat) (queue xs : List α) : List α :=
  capacity.elim xs fun c => xs.take (c - queue.length)

/-- There is room for all of the elements. -/
def Fits (capacity : Option Nat) (queue xs : List α) : Prop :=
  ∀ c, capacity = some c → xs.length ≤ c - queue.length

theorem pushAll_eq (queue xs : List α) :
    xs.foldl (push capacity) queue = queue ++ accepted capacity queue xs := by
  induction xs generalizing queue with
  | nil => cases capacity <;> simp [accepted]
  | cons x xs ih =>
    rw [List.foldl_cons, ih]
    cases capacity with
    | none => simp [push, accepted]
    | some c =>
      by_cases hroom : queue.length < c
      · have hleft : c - queue.length = c - (queue.length + 1) + 1 := by omega
        simp [push, accepted, hroom, hleft]
      · have hfull : c - queue.length = 0 := by omega
        simp [push, accepted, hroom, hfull]

theorem accepted_sublist (capacity : Option Nat) (queue xs : List α) : (accepted capacity queue xs).Sublist xs := by
  cases capacity with
  | none => exact .refl xs
  | some c => exact List.take_sublist _ xs

theorem accepted_eq_self {queue xs : List α} (h : Fits capacity queue xs) :
    accepted capacity queue xs = xs := by
  cases capacity with
  | none => rfl
  | some c => exact List.take_of_length_le (h c rfl)

theorem length_accepted_lt {queue xs : List α} (h : ¬ Fits capacity queue xs) :
    (accepted capacity queue xs).length < xs.length := by
  unfold Fits at h
  push Not at h
  obtain ⟨c, rfl, hlt⟩ := h
  rw [accepted, Option.elim_some, List.length_take]
  omega

/-- A queue with all that was pushed to it and popped from it. -/
structure Ledger (α : Type*) where
  queue : List α
  pushed : List α
  popped : List α

inductive Event (α : Type*) where
  | push (xs : List α)
  | refuse (xs : List α)
  | pop (n : Nat)
  | clear

namespace Ledger

variable {l : Ledger α}

def after (capacity : Option Nat) (l : Ledger α) : Event α → Ledger α
  | .push xs => { l with
      queue := xs.foldl (BoundedQueue.push capacity) l.queue
      pushed := l.pushed ++ xs }
  | .refuse xs => { l with pushed := l.pushed ++ xs }
  | .pop n => { l with queue := l.queue.drop n, popped := l.popped ++ l.queue.take n }
  | .clear => { l with queue := [] }

/-- All that was pushed is popped or still queued, in its order. -/
def Complete (l : Ledger α) : Prop := l.popped ++ l.queue = l.pushed

/-- What is popped or queued was pushed, in that order and not more often. -/
def Sound (l : Ledger α) : Prop := (l.popped ++ l.queue).Sublist l.pushed

/-- The event refuses and discards nothing. -/
def Keeps (capacity : Option Nat) (l : Ledger α) : Event α → Prop
  | .push xs => Fits capacity l.queue xs
  | .refuse xs => xs = []
  | .pop _ => True
  | .clear => l.queue = []

theorem Complete.sound (h : l.Complete) : l.Sound :=
  show (l.popped ++ l.queue).Sublist l.pushed from h ▸ .refl _

theorem Sound.after (h : l.Sound) (e : Event α) : (l.after capacity e).Sound := by
  cases e with
  | push xs =>
    rw [Sound, Ledger.after, pushAll_eq, ← List.append_assoc]
    exact h.append (accepted_sublist _ _ xs)
  | refuse xs => exact List.Sublist.trans h (List.sublist_append_left ..)
  | pop n =>
    rw [Sound, Ledger.after, List.append_assoc, List.take_append_drop]
    exact h
  | clear =>
    rw [Sound, Ledger.after, List.append_nil]
    exact (List.sublist_append_left ..).trans h

theorem Complete.after (h : l.Complete) {e : Event α} (hkeeps : l.Keeps capacity e) :
    (l.after capacity e).Complete := by
  cases e with
  | push xs =>
    rw [Complete, Ledger.after, pushAll_eq, accepted_eq_self hkeeps, ← List.append_assoc]
    exact congrArg (· ++ xs) h
  | refuse xs =>
    have hnone : xs = [] := hkeeps
    rw [Complete, Ledger.after, hnone, List.append_nil]
    exact h
  | pop n =>
    rw [Complete, Ledger.after, List.append_assoc, List.take_append_drop]
    exact h
  | clear =>
    have hempty : l.queue = [] := hkeeps
    rw [Complete, Ledger.after, ← h, hempty]

/-- What is lost stays lost. -/
theorem not_complete_after (h : l.Sound) {e : Event α}
    (hlost : ¬ l.Complete ∨ ¬ l.Keeps capacity e) : ¬ (l.after capacity e).Complete := by
  have hle := h.length_le
  have hlt (hnot : ¬ l.Complete) : (l.popped ++ l.queue).length < l.pushed.length :=
    Nat.lt_of_le_of_ne hle fun heq => hnot (h.eq_of_length heq)
  intro hcomplete
  have hlength := congrArg List.length hcomplete
  cases e with
  | push xs =>
    have hxs := (accepted_sublist capacity l.queue xs).length_le
    simp only [Ledger.after, pushAll_eq, List.length_append] at hlength hle hlt
    rcases hlost with hnot | hkeeps
    · have := hlt hnot
      omega
    · have := length_accepted_lt hkeeps
      omega
  | refuse xs =>
    simp only [Ledger.after, List.length_append] at hlength hle hlt
    rcases hlost with hnot | hkeeps
    · have := hlt hnot
      omega
    · have := List.length_pos_of_ne_nil hkeeps
      omega
  | pop n =>
    simp only [Ledger.after, List.append_assoc, List.take_append_drop] at hlength
    exact hlost.elim (fun hnot => Nat.ne_of_lt (hlt hnot) hlength) fun hkeeps => hkeeps trivial
  | clear =>
    simp only [Ledger.after, List.append_nil, List.length_append] at hlength hle hlt
    rcases hlost with hnot | hkeeps
    · have := hlt hnot
      omega
    · have := List.length_pos_of_ne_nil hkeeps
      omega

end Ledger

section Runs

variable {σ ε : Type*} {step : σ → ε → Option σ} {view : σ → Ledger α}
  {does : σ → ε → Option (Event α)}

/-- Each step of a machine does what `does` says to the queue that `view` shows, or nothing. -/
def Follows (capacity : Option Nat) (step : σ → ε → Option σ) (view : σ → Ledger α)
    (does : σ → ε → Option (Event α)) : Prop :=
  ∀ s e t, step s e = some t → view t = (does s e).elim (view s) ((view s).after capacity)

theorem Follows.sound (h : Follows capacity step view does) {s t : σ} {es : List ε}
    (hs : (view s).Sound) (hr : Machine.run step s es = some t) : (view t).Sound := by
  refine Machine.run_preserves (I := fun s => (view s).Sound) (fun s e t hsound ht => ?_) hs hr
  rw [h s e t ht]
  cases does s e with
  | none => exact hsound
  | some event => exact hsound.after event

/-- At the end of a run nothing is lost exactly if nothing was before it and no step of it refuses or
discards anything. -/
theorem Follows.complete_iff_meets (h : Follows capacity step view does) {s t : σ} {es : List ε}
    (hs : (view s).Sound) (hr : Machine.run step s es = some t) :
    (view t).Complete ↔ (view s).Complete ∧
      Machine.Meets step (fun s e => ∀ event, does s e = some event → (view s).Keeps capacity event)
        s es := by
  induction es generalizing s with
  | nil =>
    cases Option.some.inj hr
    exact (and_iff_left trivial).symm
  | cons e es ih =>
    obtain ⟨u, hu, hr⟩ := Machine.run_cons_iff.mp hr
    have hview := h s e u hu
    have hone : Machine.run step s [e] = some u := Machine.run_cons_iff.mpr ⟨u, hu, rfl⟩
    have hsound : (view u).Sound := h.sound hs hone
    have hfirst : (view u).Complete ↔ (view s).Complete ∧
        ∀ event, does s e = some event → (view s).Keeps capacity event := by
      rw [hview]
      cases hdoes : does s e with
      | none => simp
      | some event =>
        refine ⟨fun hcomplete => ?_, fun ⟨hcomplete, hkeeps⟩ => hcomplete.after (hkeeps _ rfl)⟩
        by_contra hnot
        refine Ledger.not_complete_after hs ?_ hcomplete
        by_contra hboth
        push Not at hboth
        exact hnot ⟨hboth.1, fun _ heq => Option.some.inj heq ▸ hboth.2⟩
    rw [ih hsound hr, hfirst, and_assoc]
    refine and_congr_right fun _ => and_congr_right fun _ =>
      ⟨fun hmeets v hv => ?_, fun hall => hall u hu⟩
    cases Option.some.inj (hu.symm.trans hv)
    exact hmeets

end Runs

end BoundedQueue
