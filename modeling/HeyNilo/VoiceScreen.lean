import HeyNilo.VoiceStartup

namespace HeyNilo

namespace VoiceScreen

/-- The effect that re-initializes the pipeline: launched, or in the delay after the release. -/
inductive EffectStage where
  | launched
  | waiting
deriving DecidableEq, Repr

inductive Event where
  | grant
  | configChange
  | checkPermission
  | reinit
  | createPipeline
  | pipeline (p : Nat) (e : VoiceStartup.Event)
  | leave
deriving DecidableEq, Repr

end VoiceScreen

/-- The voice pipelines of the chat screen, `created` of them so far, and its two effects. -/
structure VoiceScreen where
  hasRecordPermission : Bool
  voicePipelineManager : Option Nat := none
  isVoiceReady : Bool := false
  pipelines : Nat → VoiceStartup := fun _ => {}
  created : Nat := 0
  permissionEffect : Option VoiceScreen.EffectStage := some .launched
  pipelineEffect : Bool := true
  left : Bool := false

namespace VoiceStartup

def Event.isCoroutine : Event → Bool
  | .start | .release => false
  | .begin _ | .extract .. | .make .. | .initialized _ | .validate _ | .assign _ | .report _ => true

/-- No start-up has got as far as to begin. -/
structure Dormant (s : VoiceStartup) : Prop where
  live : s.live = ∅
  startups : ∀ id stage, s.startups id = some stage → stage = .launched

/-- No start-up is under way. -/
structure Idle (s : VoiceStartup) : Prop where
  live : s.live = ∅
  startups : ∀ id, s.startups id = none

variable {s t : VoiceStartup}

theorem Idle.dormant (h : s.Idle) : s.Dormant :=
  ⟨h.live, fun id _ hid => nomatch (h.startups id).symm.trans hid⟩

theorem idle_start : Idle {} := ⟨rfl, fun _ => rfl⟩

theorem Idle.release (h : s.Idle) : s.release.Idle :=
  ⟨by rw [VoiceStartup.release, h.live, Finset.filter_empty], h.startups⟩

theorem Dormant.start (h : s.Dormant) : s.start.Dormant := by
  unfold VoiceStartup.start
  split
  · exact h
  · refine ⟨h.live, fun id stage hid => ?_⟩
    have hid : (s.setStage s.launches (some .launched)).startups id = some stage := hid
    rw [startups_setStage] at hid
    split at hid
    · exact (Option.some.inj hid).symm
    · exact h.startups id stage hid

theorem reportIfActive_frame (s : VoiceStartup) (success : Bool) :
    (s.reportIfActive success).scopeActive = s.scopeActive ∧
      (s.reportIfActive success).launches = s.launches := by
  unfold reportIfActive
  split <;> exact ⟨rfl, rfl⟩

theorem make_frame {id : Nat} {c : Component} {making : Making} (ht : s.make id c making = some t) :
    t.scopeActive = s.scopeActive ∧ t.launches = s.launches := by
  unfold make at ht
  split at ht <;> cases ht <;> first | exact ⟨rfl, rfl⟩ | exact reportIfActive_frame ..

/-- A step of a coroutine keeps the scope, and only one that has begun or may begin takes it. -/
theorem coroutine_step {e : Event} (he : e.isCoroutine = true) (ht : s.step e = some t) :
    (t.scopeActive = s.scopeActive ∧ t.launches = s.launches) ∧
      ∃ id stage, s.startups id = some stage ∧ (stage = .launched → s.scopeActive = true) := by
  cases e with
  | start | release => cases he
  | begin id =>
    obtain ⟨⟨hactive, hid⟩, ⟨⟩⟩ := Option.ite_none_right_eq_some.mp ht
    exact ⟨⟨rfl, rfl⟩, id, _, hid, fun _ => hactive⟩
  | extract id ok =>
    obtain ⟨hid, ⟨⟩⟩ := Option.ite_none_right_eq_some.mp ht
    refine ⟨?_, id, _, hid, by simp⟩
    cases ok <;> exact ⟨rfl, rfl⟩
  | make id making =>
    simp only [step] at ht
    split at ht
    next c hid => exact ⟨make_frame ht, id, _, hid, by simp⟩
    next => cases ht
  | initialized id | validate id =>
    obtain ⟨hid, ⟨⟩⟩ := Option.ite_none_right_eq_some.mp ht
    exact ⟨⟨rfl, rfl⟩, id, _, hid, by simp⟩
  | assign id =>
    simp only [step] at ht
    split at ht
    next valid hid =>
      cases ht
      exact ⟨⟨rfl, rfl⟩, id, _, hid, by simp⟩
    next => cases ht
  | report id =>
    obtain ⟨hid, ⟨⟩⟩ := Option.ite_none_right_eq_some.mp ht
    exact ⟨reportIfActive_frame _ _, id, _, hid, by simp⟩

end VoiceStartup

namespace VoiceScreen

open Function (update)

def setPipeline (s : VoiceScreen) (p : Nat) (v : VoiceStartup) : VoiceScreen :=
  { s with pipelines := update s.pipelines p v }

/-- A change of the permission launches both effects, in this order, one of the configuration the
second. `onInitialized` of any pipeline sets `isVoiceReady`. -/
def step (s : VoiceScreen) : Event → Option VoiceScreen
  | .grant =>
    if s.left = false ∧ s.hasRecordPermission = false then
      some { s with
        hasRecordPermission := true
        permissionEffect := some .launched
        pipelineEffect := true }
    else none
  | .configChange => if s.left = false then some { s with pipelineEffect := true } else none
  | .checkPermission =>
    if s.permissionEffect = some .launched then
      match s.voicePipelineManager with
      | some p =>
        if s.hasRecordPermission && !s.isVoiceReady then
          some { s.setPipeline p (s.pipelines p).release with permissionEffect := some .waiting }
        else some { s with permissionEffect := none }
      | none => some { s with permissionEffect := none }
    else none
  | .reinit =>
    if s.permissionEffect = some .waiting then
      match s.voicePipelineManager with
      | some p => some { s.setPipeline p (s.pipelines p).start with permissionEffect := none }
      | none => some { s with permissionEffect := none }
    else none
  | .createPipeline =>
    if s.pipelineEffect = true ∧ s.permissionEffect ≠ some .launched then
      let vpm : VoiceStartup := {}
      some { s.setPipeline s.created (if s.hasRecordPermission then vpm.start else vpm) with
        voicePipelineManager := some s.created
        created := s.created + 1
        pipelineEffect := false }
    else none
  | .pipeline p e =>
    if e.isCoroutine then
      ((s.pipelines p).step e).map fun v => { s.setPipeline p v with
        isVoiceReady := (v.reports.drop (s.pipelines p).reports.length).headD s.isVoiceReady }
    else none
  | .leave =>
    if s.left = false then
      some { s with
        pipelines := fun p =>
          if s.voicePipelineManager = some p then (s.pipelines p).release else s.pipelines p
        permissionEffect := none
        pipelineEffect := false
        left := true }
    else none

def start (granted : Bool) : VoiceScreen := { hasRecordPermission := granted }

structure Inv (s : VoiceScreen) : Prop where
  kept : ∀ p, (s.pipelines p).scopeActive = true ∨ (s.pipelines p).Dormant ∨
    s.left = true ∧ s.voicePipelineManager = some p
  unasked : s.hasRecordPermission = false → ∀ p, (s.pipelines p).Idle
  launched : s.permissionEffect = some .launched → ∀ p, (s.pipelines p).Idle
  waiting : s.permissionEffect = some .waiting → s.hasRecordPermission = true ∧
    ∀ p, s.voicePipelineManager = some p →
      (s.pipelines p).scopeActive = false ∨ 0 < (s.pipelines p).launches
  stays : s.left = true → s.permissionEffect = none ∧ s.pipelineEffect = false

variable {s t : VoiceScreen}

theorem inv_start (granted : Bool) : Inv (start granted) where
  kept _ := .inl rfl
  unasked _ _ := VoiceStartup.idle_start
  launched _ _ := VoiceStartup.idle_start
  waiting h := nomatch h
  stays h := nomatch h

theorem pipelines_setPipeline (s : VoiceScreen) (p : Nat) (v : VoiceStartup) (q : Nat) :
    (s.setPipeline p v).pipelines q = if q = p then v else s.pipelines q :=
  Function.update_apply ..

theorem start_scopeActive (v : VoiceStartup) : v.start.scopeActive = v.scopeActive := by
  unfold VoiceStartup.start
  split <;> rfl

/-- Before the screen is left a pipeline is active or dormant. -/
theorem Inv.active_or_dormant (h : Inv s) (hleft : s.left = false) (p : Nat) :
    (s.pipelines p).scopeActive = true ∨ (s.pipelines p).Dormant :=
  (h.kept p).imp_right fun hp => hp.resolve_right fun hgone => nomatch hleft.symm.trans hgone.1

theorem Inv.endEffect (h : Inv s) : Inv { s with permissionEffect := none } :=
  ⟨h.kept, h.unasked, nofun, nofun, fun hleft => ⟨rfl, (h.stays hleft).2⟩⟩

theorem Inv.checkPermission (h : Inv s) (ht : s.step .checkPermission = some t) : Inv t := by
  obtain ⟨hlaunched, ht⟩ := Option.ite_none_right_eq_some.mp ht
  have hidle := h.launched hlaunched
  split at ht
  next p hp =>
    split at ht
    next hcheck =>
      cases ht
      have hpermission := (Bool.and_eq_true_iff.mp hcheck).1
      refine ⟨fun q => ?_, fun hnot => (nomatch hpermission.symm.trans hnot), nofun,
        fun _ => ⟨hpermission, fun q hq => ?_⟩,
        fun hleft => nomatch hlaunched.symm.trans (h.stays hleft).1⟩
      · simp only [pipelines_setPipeline]
        split
        · exact .inr (.inl (hidle p).release.dormant)
        · exact h.kept q
      · cases Option.some.inj (hp.symm.trans hq)
        simp only [pipelines_setPipeline, if_true]
        exact .inl rfl
    next =>
      cases ht
      exact h.endEffect
  next =>
    cases ht
    exact h.endEffect

theorem Inv.reinit (h : Inv s) (ht : s.step .reinit = some t) : Inv t := by
  obtain ⟨hwaiting, ht⟩ := Option.ite_none_right_eq_some.mp ht
  split at ht
  next p hp =>
    cases ht
    have hpermission := (h.waiting hwaiting).1
    refine ⟨fun q => ?_, fun hnot => (nomatch hpermission.symm.trans hnot), nofun, nofun,
      fun hleft => ⟨rfl, (h.stays hleft).2⟩⟩
    simp only [pipelines_setPipeline]
    split
    next heq =>
      subst heq
      rw [start_scopeActive]
      exact (h.kept q).imp_right (Or.imp_left VoiceStartup.Dormant.start)
    next => exact h.kept q
  next =>
    cases ht
    exact h.endEffect

theorem Inv.createPipeline (h : Inv s) (ht : s.step .createPipeline = some t) : Inv t := by
  obtain ⟨⟨hpending, hchecked⟩, ⟨⟩⟩ := Option.ite_none_right_eq_some.mp ht
  have hleft : s.left = false :=
    Bool.eq_false_of_not_eq_true fun hleft => nomatch hpending.symm.trans (h.stays hleft).2
  refine ⟨fun q => ?_, fun hnot q => ?_, fun hlaunched => absurd hlaunched hchecked,
    fun hwaiting => ⟨(h.waiting hwaiting).1, fun q hq => ?_⟩,
    fun hgone => nomatch hleft.symm.trans hgone⟩
  · simp only [pipelines_setPipeline]
    split
    · refine .inl ?_
      split
      · exact start_scopeActive _
      · rfl
    · exact (h.active_or_dormant hleft q).imp_right .inl
  · have hnot : s.hasRecordPermission = false := hnot
    simp only [pipelines_setPipeline, hnot, Bool.false_eq_true, if_false]
    split
    · exact VoiceStartup.idle_start
    · exact h.unasked hnot q
  · have hpermission := (h.waiting hwaiting).1
    cases Option.some.inj hq
    right
    simp only [pipelines_setPipeline, hpermission, if_true]
    exact Nat.one_pos

theorem Inv.pipeline (h : Inv s) {p : Nat} {e : VoiceStartup.Event}
    (ht : s.step (.pipeline p e) = some t) : Inv t := by
  obtain ⟨he, ht⟩ := Option.ite_none_right_eq_some.mp ht
  obtain ⟨v, hv, rfl⟩ := Option.map_eq_some_iff.mp ht
  obtain ⟨⟨hscope, hlaunches⟩, id, stage, hid, hactive⟩ := VoiceStartup.coroutine_step he hv
  have hbusy (hidle : (s.pipelines p).Idle) : False := nomatch (hidle.startups id).symm.trans hid
  refine ⟨fun q => ?_, fun hnot => (hbusy (h.unasked hnot p)).elim,
    fun hlaunched => (hbusy (h.launched hlaunched p)).elim,
    fun hwaiting => ⟨(h.waiting hwaiting).1, fun q hq => ?_⟩, h.stays⟩
  · simp only [pipelines_setPipeline]
    split
    next heq =>
      subst heq
      rw [hscope]
      rcases h.kept q with hkept | hdormant | hgone
      · exact .inl hkept
      · exact .inl (hactive (hdormant.startups id stage hid))
      · exact .inr (.inr hgone)
    next => exact h.kept q
  · have hkept := (h.waiting hwaiting).2 q hq
    simp only [pipelines_setPipeline]
    split
    next heq =>
      subst heq
      rwa [hscope, hlaunches]
    next => exact hkept

theorem Inv.leave (h : Inv s) (ht : s.step .leave = some t) : Inv t := by
  obtain ⟨hleft, ⟨⟩⟩ := Option.ite_none_right_eq_some.mp ht
  refine ⟨fun q => ?_, fun hnot q => ?_, nofun, nofun, fun _ => ⟨rfl, rfl⟩⟩
  · by_cases hq : s.voicePipelineManager = some q
    · exact .inr (.inr ⟨rfl, hq⟩)
    · simp only [hq, if_false]
      exact (h.active_or_dormant hleft q).imp_right .inl
  · have hidle := h.unasked hnot q
    dsimp only
    split
    · exact hidle.release
    · exact hidle

theorem inv_step {e : Event} (h : Inv s) (ht : s.step e = some t) : Inv t := by
  cases e with
  | grant =>
    obtain ⟨⟨hleft, hpermission⟩, ⟨⟩⟩ := Option.ite_none_right_eq_some.mp ht
    exact ⟨h.kept, nofun, fun _ => h.unasked hpermission, nofun,
      fun hgone => nomatch hleft.symm.trans hgone⟩
  | configChange =>
    obtain ⟨hleft, ⟨⟩⟩ := Option.ite_none_right_eq_some.mp ht
    exact ⟨h.kept, h.unasked, h.launched, h.waiting,
      fun hgone => nomatch hleft.symm.trans hgone⟩
  | checkPermission => exact h.checkPermission ht
  | reinit => exact h.reinit ht
  | createPipeline => exact h.createPipeline ht
  | pipeline p e => exact h.pipeline ht
  | leave => exact h.leave ht

theorem inv_run {granted : Bool} {es : List Event}
    (hrun : Machine.run step (start granted) es = some s) : Inv s :=
  Machine.run_preserves (fun _ _ _ => inv_step) (inv_start granted) hrun

/-- The configuration is changed before the screen is left. -/
def leftAfterChange : List Event := [.checkPermission, .createPipeline, .pipeline 0 (.begin 0),
  .configChange, .createPipeline, .pipeline 1 (.begin 0), .leave]

/-- The permission is granted on a screen that was composed without it. -/
def grantedLater : List Event := [.checkPermission, .createPipeline, .grant, .checkPermission,
  .createPipeline]

end VoiceScreen

end HeyNilo
