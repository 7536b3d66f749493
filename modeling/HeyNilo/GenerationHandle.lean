import HeyNilo.Machine
import Mathlib.Data.List.Basic

namespace HeyNilo

/-- Where the flow of `OfflineLLMProvider.stream` is suspended: in the `join` of the job before, in
its loop over the tokens, and in the emission after its time is over. -/
inductive StreamPoint where
  | join
  | collect
  | timedOut
deriving DecidableEq, Repr

/-- The generation jobs of the provider, by their ids: one is in `active` until it ends or is
cancelled. -/
structure GenerationJobs where
  currentGenerationJob : Option Nat
  active : List Nat
  nextId : Nat
  flows : List StreamPoint
  scopeCancelled : Bool
deriving DecidableEq, Repr

/-- The steps of the flows, of their jobs and of the provider's callers. A flow comes to its
`finally` block at its end, by an exception or when its collector is cancelled. -/
inductive GenerationEvent where
  | stream
  | launch (i : Nat)
  | timeOut (i : Nat)
  | finish (i : Nat)
  | jobEnds (id : Nat)
  | cancelGeneration
  | release
deriving DecidableEq, Repr

namespace GenerationJobs

open Machine

def start : GenerationJobs := ⟨none, [], 0, [], false⟩

/-- `currentGenerationJob?.cancel()` -/
def cancelCurrent (g : GenerationJobs) : GenerationJobs :=
  { g with active := g.active.filter fun id => g.currentGenerationJob ≠ some id }

def step (g : GenerationJobs) : GenerationEvent → Option GenerationJobs
  | .stream => some { g.cancelCurrent with flows := g.flows ++ [.join] }
  | .launch i =>
    if g.flows[i]? = some .join then
      some { g with
        currentGenerationJob := some g.nextId
        active := if g.scopeCancelled then g.active else g.active ++ [g.nextId]
        nextId := g.nextId + 1
        flows := g.flows.set i .collect }
    else none
  | .timeOut i =>
    if g.flows[i]? = some .collect then
      some { g.cancelCurrent with flows := g.flows.set i .timedOut }
    else none
  | .finish i =>
    if i < g.flows.length then
      some { g with currentGenerationJob := none, flows := g.flows.eraseIdx i }
    else none
  | .jobEnds id => if id ∈ g.active then some { g with active := g.active.filter (· ≠ id) } else none
  | .cancelGeneration => some { g.cancelCurrent with currentGenerationJob := none }
  | .release =>
    some { g with currentGenerationJob := none, active := [], scopeCancelled := true }

/-- The job that was started last runs. -/
def latestRuns (g : GenerationJobs) : Bool := g.nextId ≠ 0 && g.nextId - 1 ∈ g.active

/-- The handle refers to the job that was started last while that job is active. -/
def Owned (g : GenerationJobs) : Prop :=
  g.latestRuns = true → g.currentGenerationJob = some (g.nextId - 1)

instance (g : GenerationJobs) : Decidable g.Owned := inferInstanceAs (Decidable (_ → _))

/-- A flow comes to its `finally` block while the job that was started last is active. -/
def losesHandle (g : GenerationJobs) : GenerationEvent → Bool
  | .finish _ => g.latestRuns
  | _ => false

section

variable {g h : GenerationJobs}

theorem latestRuns_of_sublist (hruns : h.latestRuns = true) (hnext : h.nextId = g.nextId)
    (hactive : h.active.Sublist g.active) : g.latestRuns = true := by
  unfold latestRuns at hruns ⊢
  rw [hnext] at hruns
  simp only [Bool.and_eq_true, decide_eq_true_eq] at hruns ⊢
  exact ⟨hruns.1, hactive.subset hruns.2⟩

theorem Owned.cancelCurrent (howned : g.Owned) : g.cancelCurrent.latestRuns = false := by
  by_contra hruns
  have hruns := eq_true_of_ne_false hruns
  have hcurrent := howned (latestRuns_of_sublist hruns rfl List.filter_sublist)
  have hkept : g.nextId - 1 ∈ g.cancelCurrent.active := by
    unfold latestRuns at hruns
    simp only [Bool.and_eq_true, decide_eq_true_eq] at hruns
    exact hruns.2
  have hnot := (List.mem_filter.mp hkept).2
  rw [hcurrent] at hnot
  simp at hnot

theorem Owned.of_idle (hruns : g.latestRuns = false) : g.Owned := by
  intro h
  rw [hruns] at h
  cases h

theorem owned_step {e : GenerationEvent} (howned : g.Owned) (hok : g.losesHandle e = false)
    (hs : g.step e = some h) : h.Owned := by
  cases e with
  | stream =>
    cases Option.some.inj hs
    exact .of_idle howned.cancelCurrent
  | launch i =>
    obtain ⟨-, heq⟩ := Option.ite_none_right_eq_some.mp hs
    cases Option.some.inj heq
    exact fun _ => rfl
  | timeOut i =>
    obtain ⟨-, heq⟩ := Option.ite_none_right_eq_some.mp hs
    cases Option.some.inj heq
    exact .of_idle howned.cancelCurrent
  | finish i =>
    obtain ⟨-, heq⟩ := Option.ite_none_right_eq_some.mp hs
    cases Option.some.inj heq
    exact .of_idle hok
  | jobEnds id =>
    obtain ⟨-, heq⟩ := Option.ite_none_right_eq_some.mp hs
    cases Option.some.inj heq
    exact fun hruns => howned (latestRuns_of_sublist hruns rfl List.filter_sublist)
  | cancelGeneration =>
    cases Option.some.inj hs
    exact .of_idle howned.cancelCurrent
  | release =>
    cases Option.some.inj hs
    exact .of_idle (by simp [latestRuns])

theorem not_owned_finish {e : GenerationEvent} (hbad : ¬ g.losesHandle e = false)
    (hs : g.step e = some h) : ¬ h.Owned := by
  cases e with
  | finish i =>
    obtain ⟨-, heq⟩ := Option.ite_none_right_eq_some.mp hs
    cases Option.some.inj heq
    intro howned
    have hcurrent := howned (eq_true_of_ne_false hbad)
    cases hcurrent
  | _ => exact absurd rfl hbad

end

/-- The handle refers to the latest job all along a run in which that job is active, exactly when no
flow of the run ends while it is. -/
theorem always_owned_iff {es : List GenerationEvent} (hr : run step start es = some h) :
    Always step Owned start es ↔ Meets step (fun g e => g.losesHandle e = false) start es :=
  always_iff_meets (fun _ howned => howned) (fun _ _ _ howned hok hs => owned_step howned hok hs)
    (fun _ _ _ _ hbad hs => not_owned_finish hbad hs) (.of_idle rfl) hr

end GenerationJobs

end HeyNilo
