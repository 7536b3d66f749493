import HeyNilo.Machine
import Mathlib.Algebra.BigOperators.Group.Finset.Basic

namespace HeyNilo

/-- The components that a voice pipeline releases. -/
inductive Component where
  | vadBridge
  | sttBridge
  | audioRecorder
  | kokoroTTS
deriving DecidableEq, Repr

namespace VoiceStartup

/-- Where the coroutine of `initialize` stands. -/
inductive Stage where
  | launched
  | extracting
  | making (c : Component)
  | initializing
  | validating
  | assigning (valid : Bool)
  | reporting
deriving DecidableEq, Repr

/-- How a component comes into being. `noModel`: a bridge whose model is not loaded; it is dropped with
its native handle. `denied`: the recorder is made, but may not record. -/
inductive Making where
  | ok
  | noModel
  | failed
  | denied
deriving DecidableEq, Repr

inductive Event where
  | start
  | begin (id : Nat)
  | extract (id : Nat) (ok : Bool)
  | make (id : Nat) (making : Making)
  | initialized (id : Nat)
  | validate (id : Nat)
  | assign (id : Nat)
  | report (id : Nat)
  | release
deriving DecidableEq, Repr

end VoiceStartup

/-- A voice pipeline with the coroutines of its start-ups, `launches` of them so far, and the
components that are made and not released. -/
structure VoiceStartup where
  fields : Component → Option Nat := fun _ => none
  scopeActive : Bool := true
  isInitialized : Bool := false
  startups : Nat → Option VoiceStartup.Stage := fun _ => none
  launches : Nat := 0
  made : Nat := 0
  live : Finset (Component × Nat) := ∅
  reports : List Bool := []

namespace VoiceStartup

open Function (update)

def next : Component → Stage
  | .vadBridge => .making .sttBridge
  | .sttBridge => .making .audioRecorder
  | .audioRecorder => .making .kokoroTTS
  | .kokoroTTS => .initializing

def setStage (s : VoiceStartup) (id : Nat) (stage : Option Stage) : VoiceStartup :=
  { s with startups := update s.startups id stage }

/-- `initialize`. -/
def start (s : VoiceStartup) : VoiceStartup :=
  if s.isInitialized then s
  else { s.setStage s.launches (some .launched) with launches := s.launches + 1 }

/-- A component is made and not kept. -/
def allocate (s : VoiceStartup) (c : Component) : VoiceStartup :=
  { s with made := s.made + 1, live := insert (c, s.made + 1) s.live }

/-- A component is made and kept in its field, over what is there. -/
def store (s : VoiceStartup) (c : Component) : VoiceStartup :=
  { s.allocate c with fields := update s.fields c (some (s.made + 1)) }

/-- `onInitialized` on the main thread, which a cancelled coroutine does not reach. -/
def reportIfActive (s : VoiceStartup) (success : Bool) : VoiceStartup :=
  if s.scopeActive then { s with reports := s.reports ++ [success] } else s

def make (s : VoiceStartup) (id : Nat) : Component → Making → Option VoiceStartup
  | c, .ok => some ((s.store c).setStage id (some (next c)))
  | .vadBridge, .noModel => some ((s.allocate .vadBridge).setStage id (some (next .vadBridge)))
  | .sttBridge, .noModel => some ((s.allocate .sttBridge).setStage id (some (next .sttBridge)))
  | .vadBridge, .failed => some (s.setStage id (some (next .vadBridge)))
  | .sttBridge, .failed => some (s.setStage id (some (next .sttBridge)))
  | .audioRecorder, .denied =>
    some (((s.store .audioRecorder).setStage id none).reportIfActive false)
  | _, _ => none

/-- `validatePipeline`. -/
def valid (s : VoiceStartup) : Bool :=
  (s.fields .vadBridge).isSome && (s.fields .sttBridge).isSome && (s.fields .audioRecorder).isSome

def release (s : VoiceStartup) : VoiceStartup :=
  { s with
    fields := fun _ => none
    live := s.live.filter fun c => s.fields c.1 ≠ some c.2
    scopeActive := false
    isInitialized := false }

/-- The stages block or catch the cancellation, up to the last one. A coroutine that has not begun is
cancelled with its scope. -/
def step (s : VoiceStartup) : Event → Option VoiceStartup
  | .start => some s.start
  | .begin id =>
    if s.scopeActive ∧ s.startups id = some .launched then
      some (s.setStage id (some .extracting))
    else none
  | .extract id ok =>
    if s.startups id = some .extracting then
      some (if ok then s.setStage id (some (.making .vadBridge))
        else { s.setStage id none with reports := s.reports ++ [false] })
    else none
  | .make id making =>
    match s.startups id with
    | some (.making c) => s.make id c making
    | _ => none
  | .initialized id =>
    if s.startups id = some .initializing then some (s.setStage id (some .validating)) else none
  | .validate id =>
    if s.startups id = some .validating then some (s.setStage id (some (.assigning s.valid)))
    else none
  | .assign id =>
    match s.startups id with
    | some (.assigning valid) =>
      some { s.setStage id (some .reporting) with isInitialized := valid }
    | _ => none
  | .report id =>
    if s.startups id = some .reporting then
      some ((s.setStage id none).reportIfActive s.isInitialized)
    else none
  | .release => some s.release

/-- The pipeline holds no component and does not pass for initialized. -/
def Empty (s : VoiceStartup) : Prop := (∀ c, s.fields c = none) ∧ s.isInitialized = false

/-- From such a stage a coroutine of a released pipeline stores nothing any more. -/
def Stage.Harmless : Stage → Prop
  | .launched | .initializing | .validating | .assigning false | .reporting => True
  | .extracting | .making _ | .assigning true => False

/-- Released, and no start-up that stores anything any more. -/
structure Dead (s : VoiceStartup) : Prop where
  empty : s.Empty
  released : s.scopeActive = false
  harmless : ∀ id stage, s.startups id = some stage → stage.Harmless

variable {s t : VoiceStartup} {id : Nat}

theorem startups_setStage (s : VoiceStartup) (id : Nat) (stage : Option Stage) (other : Nat) :
    (s.setStage id stage).startups other = if other = id then stage else s.startups other :=
  Function.update_apply ..

theorem reportIfActive_of_released (h : s.scopeActive = false) (success : Bool) :
    s.reportIfActive success = s :=
  if_neg (Bool.eq_false_iff.mp h)

theorem Dead.setStage (h : s.Dead) (id : Nat) {stage : Option Stage}
    (hstage : ∀ stage', stage = some stage' → stage'.Harmless) : (s.setStage id stage).Dead where
  empty := h.empty
  released := h.released
  harmless other stage' hother := by
    rw [startups_setStage] at hother
    split at hother
    · exact hstage stage' hother
    · exact h.harmless other stage' hother

theorem dead_step {e : Event} (h : s.Dead) (ht : s.step e = some t) : t.Dead := by
  cases e with
  | start =>
    cases ht
    rw [start, h.empty.2, if_neg Bool.false_ne_true]
    have hset : (s.setStage s.launches (some .launched)).Dead :=
      h.setStage _ fun _ heq => Option.some.inj heq ▸ trivial
    exact ⟨hset.empty, hset.released, hset.harmless⟩
  | begin id =>
    obtain ⟨⟨hactive, -⟩, -⟩ := Option.ite_none_right_eq_some.mp ht
    cases h.released.symm.trans hactive
  | extract id ok =>
    obtain ⟨hid, -⟩ := Option.ite_none_right_eq_some.mp ht
    exact (h.harmless id _ hid).elim
  | make id making =>
    simp only [step] at ht
    split at ht
    next c hid => exact (h.harmless id _ hid).elim
    next => cases ht
  | initialized id =>
    obtain ⟨-, ⟨⟩⟩ := Option.ite_none_right_eq_some.mp ht
    exact h.setStage _ fun _ heq => Option.some.inj heq ▸ trivial
  | validate id =>
    obtain ⟨-, ⟨⟩⟩ := Option.ite_none_right_eq_some.mp ht
    have hvalid : s.valid = false := by simp [valid, h.empty.1]
    exact h.setStage _ fun _ heq => Option.some.inj heq ▸ hvalid ▸ trivial
  | assign id =>
    simp only [step] at ht
    split at ht
    next valid hid =>
      cases ht
      have hset : (s.setStage id (some .reporting)).Dead :=
        h.setStage _ fun _ heq => Option.some.inj heq ▸ trivial
      cases valid with
      | true => exact (h.harmless id _ hid).elim
      | false => exact ⟨⟨hset.empty.1, rfl⟩, hset.released, hset.harmless⟩
    next => cases ht
  | report id =>
    obtain ⟨-, ⟨⟩⟩ := Option.ite_none_right_eq_some.mp ht
    have hset : (s.setStage id none).Dead := h.setStage _ nofun
    rwa [reportIfActive_of_released hset.released]
  | release =>
    cases ht
    exact ⟨⟨fun _ => rfl, rfl⟩, rfl, h.harmless⟩

/-- A coroutine that makes a component stores it. -/
theorem make_not_empty {c : Component} (hid : s.startups id = some (.making c)) :
    ∃ t, s.step (.make id .ok) = some t ∧ ¬ t.Empty := by
  refine ⟨(s.store c).setStage id (some (next c)), by simp [step, hid, make], fun hempty => ?_⟩
  cases (hempty.1 c).symm.trans (Function.update_self ..)

theorem not_empty_of_harmful {stage : Stage} (hid : s.startups id = some stage)
    (hstage : ¬ stage.Harmless) : ∃ es t, Machine.run step s es = some t ∧ ¬ t.Empty := by
  cases stage with
  | extracting =>
    have hmaking : (s.setStage id (some (.making .vadBridge))).startups id =
        some (.making .vadBridge) := Function.update_self ..
    obtain ⟨t, ht, hempty⟩ := make_not_empty hmaking
    refine ⟨[.extract id true, .make id .ok], t, ?_, hempty⟩
    exact Machine.run_cons_iff.mpr
      ⟨_, if_pos hid, Machine.run_cons_iff.mpr ⟨t, ht, rfl⟩⟩
  | making c =>
    obtain ⟨t, ht, hempty⟩ := make_not_empty hid
    exact ⟨[.make id .ok], t, Machine.run_cons_iff.mpr ⟨t, ht, rfl⟩, hempty⟩
  | assigning valid =>
    cases valid with
    | false => exact absurd trivial hstage
    | true =>
      refine ⟨[.assign id], { s.setStage id (some .reporting) with isInitialized := true },
        Machine.run_cons_iff.mpr ⟨_, by simp only [step, hid], rfl⟩, fun hempty => ?_⟩
      cases hempty.2
  | launched | initializing | validating | reporting => exact absurd trivial hstage

/-- A released pipeline holds nothing and is not initialized in any future exactly if no start-up was
left at a stage before its components are made, or about to assign what it had found valid. -/
theorem stays_empty_iff : (∀ es t, Machine.run step s.release es = some t → t.Empty) ↔
    ∀ id stage, s.startups id = some stage → stage.Harmless := by
  constructor
  · intro h id stage hid
    by_contra hstage
    have hid' : s.release.startups id = some stage := hid
    obtain ⟨es, t, hrun, hempty⟩ := not_empty_of_harmful hid' hstage
    exact hempty (h es t hrun)
  · intro h es t hrun
    have hdead : s.release.Dead := ⟨⟨fun _ => rfl, rfl⟩, rfl, h⟩
    exact (Machine.run_preserves (I := Dead) (fun _ _ _ => dead_step) hdead hrun).empty

/-- The step of a start-up without failures, or a further start-up. -/
def Smooth : Event → Prop
  | .extract _ ok => ok = true
  | .make _ making => making = .ok
  | .release => False
  | _ => True

def index : Component → Nat
  | .vadBridge => 0
  | .sttBridge => 1
  | .audioRecorder => 2
  | .kokoroTTS => 3

/-- How many components a coroutine has yet to make. -/
def remaining : Option Stage → Nat
  | some .launched | some .extracting => 4
  | some (.making c) => 4 - index c
  | some .initializing | some .validating | some (.assigning _) | some .reporting | none => 0

/-- Every start-up has made its components up to its stage, and the fields hold the last ones. -/
structure Accounts (s : VoiceStartup) : Prop where
  fresh : ∀ id, s.launches ≤ id → s.startups id = none
  card : s.live.card + ∑ id ∈ Finset.range s.launches, remaining (s.startups id) = 4 * s.launches
  numbered : ∀ c ∈ s.live, c.2 ≤ s.made
  kept : ∀ c n, s.fields c = some n → (c, n) ∈ s.live
  filled : ∀ id < s.launches, ∀ c, index c + remaining (s.startups id) < 4 → s.fields c ≠ none

theorem remaining_making (c : Component) :
    remaining (some (.making c)) = remaining (some (next c)) + 1 := by
  cases c <;> rfl

theorem index_next {c c' : Component} (h : index c' + remaining (some (next c)) < 4) :
    c' = c ∨ index c' + remaining (some (.making c)) < 4 := by
  cases c <;> cases c' <;> simp [index, next, remaining] at h ⊢

theorem Accounts.lt_launches (h : s.Accounts) {stage : Stage} (hid : s.startups id = some stage) :
    id < s.launches :=
  Nat.lt_of_not_le fun hle => nomatch hid.symm.trans (h.fresh id hle)

theorem sum_update {n : Nat} (startups : Nat → Option Stage) (hid : id < n) (stage : Option Stage) :
    (∑ i ∈ Finset.range n, remaining (update startups id stage i)) + remaining (startups id) =
      (∑ i ∈ Finset.range n, remaining (startups i)) + remaining stage := by
  have hmem := Finset.mem_range.mpr hid
  have hnew := Finset.add_sum_erase (Finset.range n)
    (fun i => remaining (update startups id stage i)) hmem
  have hold := Finset.add_sum_erase (Finset.range n) (fun i => remaining (startups i)) hmem
  have hrest : ∑ i ∈ (Finset.range n).erase id, remaining (update startups id stage i) =
      ∑ i ∈ (Finset.range n).erase id, remaining (startups i) :=
    Finset.sum_congr rfl fun i hi => by rw [Function.update_of_ne (Finset.ne_of_mem_erase hi)]
  simp only [Function.update_self] at hnew
  omega

theorem Accounts.fresh_setStage (h : s.Accounts) {stage : Stage}
    (hid : s.startups id = some stage) (stage' : Option Stage) (other : Nat)
    (hother : s.launches ≤ other) : (s.setStage id stage').startups other = none := by
  have hne : other ≠ id := Nat.ne_of_gt (Nat.lt_of_lt_of_le (h.lt_launches hid) hother)
  rw [startups_setStage, if_neg hne]
  exact h.fresh other hother

/-- A coroutine goes on without making a component. -/
theorem Accounts.setStage (h : s.Accounts) {stage : Stage} (hid : s.startups id = some stage)
    {stage' : Option Stage} (hsame : remaining stage' = remaining (some stage)) :
    (s.setStage id stage').Accounts where
  fresh := h.fresh_setStage hid _
  card := by
    have hsum := sum_update s.startups (h.lt_launches hid) stage'
    rw [hid, hsame] at hsum
    exact (congrArg (s.live.card + ·) (Nat.add_right_cancel hsum)).trans h.card
  numbered := h.numbered
  kept := h.kept
  filled other hother c hc := by
    rw [startups_setStage] at hc
    split at hc
    next heq => exact h.filled id (heq ▸ hother) c (by rw [hid, ← hsame]; exact hc)
    next => exact h.filled other hother c hc

/-- It makes and stores its next one. -/
theorem Accounts.store (h : s.Accounts) {c : Component} (hid : s.startups id = some (.making c)) :
    ((s.store c).setStage id (some (next c))).Accounts where
  fresh := h.fresh_setStage hid _
  card := by
    have hsum := sum_update s.startups (h.lt_launches hid) (some (next c))
    rw [hid, remaining_making] at hsum
    have hnew : (c, s.made + 1) ∉ s.live := fun hmem => Nat.not_succ_le_self _ (h.numbered _ hmem)
    have hlive := Finset.card_insert_of_notMem hnew
    have hcard := h.card
    change (insert (c, s.made + 1) s.live).card + ∑ i ∈ Finset.range s.launches,
      remaining (update s.startups id (some (next c)) i) = 4 * s.launches
    omega
  numbered c' hc' := by
    rcases Finset.mem_insert.mp hc' with rfl | hold
    · exact Nat.le_refl _
    · exact Nat.le_succ_of_le (h.numbered c' hold)
  kept c' n hn := by
    by_cases heq : c' = c
    · subst heq
      cases (Function.update_self ..).symm.trans hn
      exact Finset.mem_insert_self ..
    · exact Finset.mem_insert_of_mem (h.kept c' n ((Function.update_of_ne heq ..).symm.trans hn))
  filled other hother c' hc' := by
    by_cases heq : c' = c
    · subst heq
      exact fun hnone => nomatch (Function.update_self ..).symm.trans hnone
    · refine fun hnone => ?_
      have hnone := (Function.update_of_ne heq ..).symm.trans hnone
      rw [startups_setStage] at hc'
      split at hc'
      · have hold := (index_next hc').resolve_left heq
        exact h.filled id (h.lt_launches hid) c' (by rw [hid]; exact hold) hnone
      · exact h.filled other hother c' hc' hnone

theorem Accounts.launch (h : s.Accounts) :
    Accounts { s.setStage s.launches (some .launched) with launches := s.launches + 1 } where
  fresh other hother := by
    have hlt : s.launches < other := hother
    exact (Function.update_of_ne (Nat.ne_of_gt hlt) ..).trans (h.fresh other (Nat.le_of_lt hlt))
  card := by
    have hcard := h.card
    have hsame : ∑ i ∈ Finset.range s.launches,
        remaining (update s.startups s.launches (some .launched) i) =
          ∑ i ∈ Finset.range s.launches, remaining (s.startups i) :=
      Finset.sum_congr rfl fun i hi => by
        rw [Function.update_of_ne (Nat.ne_of_lt (Finset.mem_range.mp hi))]
    change s.live.card + ∑ i ∈ Finset.range (s.launches + 1),
      remaining (update s.startups s.launches (some .launched) i) = 4 * (s.launches + 1)
    rw [Finset.sum_range_succ, hsame, Function.update_self, remaining]
    omega
  numbered := h.numbered
  kept := h.kept
  filled other hother c hc := by
    have hle : other ≤ s.launches := Nat.le_of_lt_succ hother
    have hc : index c + remaining (update s.startups s.launches (some .launched) other) < 4 := hc
    by_cases heq : other = s.launches
    · rw [heq, Function.update_self] at hc
      exact absurd hc (Nat.not_lt.mpr (Nat.le_add_left ..))
    · rw [Function.update_of_ne heq] at hc
      exact h.filled other (Nat.lt_of_le_of_ne hle heq) c hc

theorem Accounts.reportIfActive (h : s.Accounts) (success : Bool) :
    (s.reportIfActive success).Accounts := by
  unfold VoiceStartup.reportIfActive
  split
  · exact ⟨h.fresh, h.card, h.numbered, h.kept, h.filled⟩
  · exact h

theorem accounts_step {e : Event} (h : s.Accounts) (hsmooth : Smooth e) (ht : s.step e = some t) :
    t.Accounts := by
  cases e with
  | start =>
    cases ht
    unfold start
    split
    · exact h
    · exact h.launch
  | begin id =>
    obtain ⟨⟨-, hid⟩, ⟨⟩⟩ := Option.ite_none_right_eq_some.mp ht
    exact h.setStage hid rfl
  | extract id ok =>
    obtain ⟨hid, ⟨⟩⟩ := Option.ite_none_right_eq_some.mp ht
    have hok : ok = true := hsmooth
    subst hok
    exact h.setStage hid rfl
  | make id making =>
    have hok : making = .ok := hsmooth
    subst hok
    simp only [step] at ht
    split at ht
    next c hid =>
      simp only [make] at ht
      cases ht
      exact h.store hid
    next => cases ht
  | initialized id =>
    obtain ⟨hid, ⟨⟩⟩ := Option.ite_none_right_eq_some.mp ht
    exact h.setStage hid rfl
  | validate id =>
    obtain ⟨hid, ⟨⟩⟩ := Option.ite_none_right_eq_some.mp ht
    exact h.setStage hid rfl
  | assign id =>
    simp only [step] at ht
    split at ht
    next valid hid =>
      cases ht
      have hset : (s.setStage id (some .reporting)).Accounts := h.setStage hid rfl
      exact ⟨hset.fresh, hset.card, hset.numbered, hset.kept, hset.filled⟩
    next => cases ht
  | report id =>
    obtain ⟨hid, ⟨⟩⟩ := Option.ite_none_right_eq_some.mp ht
    have hset : (s.setStage id none).Accounts := h.setStage hid rfl
    exact hset.reportIfActive _
  | release => exact hsmooth.elim

theorem accounts_start : Accounts {} where
  fresh _ _ := rfl
  card := rfl
  numbered _ hc := nomatch hc
  kept _ _ hn := nomatch hn
  filled _ hid := nomatch hid

def components : Finset Component := {.vadBridge, .sttBridge, .audioRecorder, .kokoroTTS}

/-- A release frees one component of each kind. -/
theorem Accounts.card_release (h : s.Accounts) (hfull : ∀ c, s.fields c ≠ none) :
    s.release.live.card = s.live.card - 4 := by
  choose n hn using fun c => Option.ne_none_iff_exists'.mp (hfull c)
  have hheld : s.release.live = s.live \ components.image fun c => (c, n c) := by
    ext ⟨c, i⟩
    have hmem : c ∈ components := by cases c <;> decide
    simp [release, hn, hmem, eq_comm]
  have hsubset : components.image (fun c => (c, n c)) ⊆ s.live := by
    intro c hc
    obtain ⟨c', -, rfl⟩ := Finset.mem_image.mp hc
    exact h.kept c' _ (hn c')
  have hcard : (components.image fun c => (c, n c)).card = 4 :=
    Finset.card_image_of_injective components fun _ _ heq => congrArg Prod.fst heq
  rw [hheld, Finset.card_sdiff_of_subset hsubset, hcard]

/-- When all start-ups of a run without failures have ended, a release leaves the components of all
of them but one, however their steps were interleaved. -/
theorem leaked_card (es : List Event) (hrun : Machine.run step {} es = some s)
    (hsmooth : Machine.Meets step (fun _ => Smooth) {} es) (hended : ∀ id, s.startups id = none) :
    s.release.live.card = 4 * (s.launches - 1) := by
  have h : s.Accounts := Machine.run_invariant (fun _ _ _ => accounts_step) accounts_start hsmooth hrun
  have hsum : ∑ id ∈ Finset.range s.launches, remaining (s.startups id) = 0 :=
    Finset.sum_eq_zero fun id _ => by rw [hended id]; rfl
  have hcard := h.card
  by_cases hnone : s.launches = 0
  · have hempty : s.live = ∅ := Finset.card_eq_zero.mp (by omega)
    simp [release, hempty, hnone]
  · have hfull (c : Component) : s.fields c ≠ none :=
      h.filled 0 (Nat.pos_of_ne_zero hnone) c (by rw [hended]; cases c <;> decide)
    rw [h.card_release hfull]
    omega

def startUp (id : Nat) : List Event :=
  [.extract id true, .make id .ok, .make id .ok, .make id .ok, .make id .ok, .initialized id,
    .validate id, .assign id, .report id]

/-- The second start-up is launched before the first has ended. -/
def overlapping : List Event := [.start, .begin 0, .start, .begin 1] ++ startUp 0 ++ startUp 1

instance : DecidablePred Smooth
  | .extract _ _ => inferInstanceAs (Decidable (_ = _))
  | .make _ _ => inferInstanceAs (Decidable (_ = _))
  | .release => isFalse fun h => h
  | .start | .begin _ | .initialized _ | .validate _ | .assign _ | .report _ => isTrue trivial

theorem leaked_card_overlapping : ∃ s, Machine.run step {} overlapping = some s ∧
    s.launches = 2 ∧ s.release.live.card = 4 := by
  refine ⟨_, rfl, rfl, leaked_card overlapping rfl (by decide) fun id => ?_⟩
  rcases id with _ | _ | id <;> rfl

end VoiceStartup

end HeyNilo
