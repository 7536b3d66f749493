import HeyNilo.Machine
import HeyNilo.VoiceDeadEnds

namespace HeyNilo.VoicePipeline

open Machine

/-- A pipeline that runs and records, and has no coroutine left that goes on, hears the microphone. -/
def NotStranded (s : VoicePipeline) : Prop :=
  s.isRunning = true → s.isRecording = true → (∀ job ∈ s.jobs, job.task.isPending = false) →
    s.hears = true

instance (s : VoicePipeline) : Decidable (NotStranded s) := inferInstanceAs (Decidable (_ → _))

/-- The coroutine at place `i` is the last one that goes on, and where it leaves the pipeline to
itself the state does not hear, while the pipeline runs and the recorder is on or comes on. -/
def deserts (s : VoicePipeline) (i : Nat) (records : Bool) (left : Option PipelineState) : Bool :=
  s.isRunning && (s.isRecording || records) &&
    (s.jobs.eraseIdx i).all (fun other => !other.task.isPending) &&
      left.any fun value => value ≠ .listening && value ≠ .speechDetected

/-- The steps that strand the pipeline. -/
def strands (s : VoicePipeline) : Event → Bool
  | .run i outcome =>
    match s.jobs[i]? with
    | some job =>
      s.deserts i (!job.cancelled && job.task = .record)
        (if job.cancelled then s.leavesCancelled job.task outcome else s.leaves job.task outcome)
    | none => false
  | _ => false

/-- The invariant behind `NotStranded`. -/
structure Attended (s : VoicePipeline) : Prop where
  held : Held s.work
  kept : NotStranded s

variable {s t : VoicePipeline} {i id : Nat} {task : Task} {left : Option PipelineState} {r : Resumed}

section Cancelled

variable {outcome : Outcome}

theorem transitionToState_error (s : VoicePipeline) :
    (s.transitionToState .error).currentState = .error := by
  unfold transitionToState setCurrentState
  split
  next h => exact absurd rfl h.2.2.2
  next =>
    split
    next hstate => exact hstate
    next => rfl

theorem providerCancelled_status (s : VoicePipeline) :
    s.providerCancelled.isRunning = s.isRunning ∧
      s.providerCancelled.currentState = s.currentState := by
  have hstatus := status_providerCancelled s
  exact ⟨congrArg PipelineStatus.isRunning hstatus, congrArg PipelineStatus.currentState hstatus⟩

theorem work_restartCancelled (s : VoicePipeline) (rest : AfterRestart) :
    (s.restartCancelled rest).work = s.work := by
  cases rest with
  | launched => rfl
  | stt => exact work_transitionToState s .error
  | llm rest =>
    cases rest with
    | complete isFirstToken => exact work_providerCancelled s
    | providerNet => exact work_providerCancelled s
    | legacyNet => exact work_transitionToState s .error
    | failed => rfl

theorem restartCancelled_isRunning (s : VoicePipeline) (rest : AfterRestart) :
    (s.restartCancelled rest).isRunning = s.isRunning := by
  cases rest with
  | launched => rfl
  | stt => exact transitionToState_isRunning s .error
  | llm rest =>
    cases rest with
    | complete isFirstToken => exact (providerCancelled_status s).1
    | providerNet => exact (providerCancelled_status s).1
    | legacyNet => exact transitionToState_isRunning s .error
    | failed => rfl

/-- A cancelled restart is no longer under way; its caller ends with an error or keeps the state. -/
theorem resumes_restartCancelled (hw : Held s.work) (rest : AfterRestart) :
    Resumes s i task (s.leavesCancelled (.restartDelay rest) outcome)
      ({ s with isRestarting := false }.restartCancelled rest, none) true := by
  let u := { s with isRestarting := false }
  have hwork := work_restartCancelled u rest
  have hrun : (u.restartCancelled rest).isRunning = s.isRunning := restartCancelled_isRunning u rest
  have hdead {value : PipelineState} (hstate : (u.restartCancelled rest).currentState = value) :
      Resumes s i task (some value) (u.restartCancelled rest, none) true := by
    have hposts : (u.restartCancelled rest).work.posts = u.work.posts :=
      congrArg PipelineWork.posts hwork
    refine ⟨?_, ?_, fun _ h => (nomatch h), fun hrestarting => ?_, rfl, ?_⟩
    · show u.work.posts <+: (u.restartCancelled rest).work.posts
      rw [hposts]
    · show (u.restartCancelled rest).work.Sound
      rw [hwork]
      exact hw.sound.sublist (List.Sublist.refl _) rfl (.inl rfl) (.inl rfl)
    · have hnot := congrArg PipelineWork.isRestarting hwork
      cases hnot.symm.trans hrestarting
    · refine ⟨hposts, hrun, ?_, hstate⟩
      have hsame : (u.restartCancelled rest).isRecording = s.isRecording :=
        congrArg PipelineWork.isRecording hwork
      simpa using hsame
  cases rest with
  | launched => exact hdead rfl
  | stt => exact hdead (transitionToState_error u)
  | llm rest =>
    cases rest with
    | complete isFirstToken => exact hdead (providerCancelled_status u).2
    | providerNet => exact hdead (providerCancelled_status u).2
    | legacyNet => exact hdead (transitionToState_error u)
    | failed => exact hdead rfl

/-- A blank transcription of a cancelled job still starts a restart, which then stops the recorder
and goes no further. -/
theorem resumes_sttCancelled {point : SttPoint} (hw : Held s.work) :
    Resumes s i (.stt point) (s.leavesCancelled (.stt point) outcome)
      (s.endSTT point outcome, none) true := by
  have hsame {t : VoicePipeline} (hwork : t.work = s.work) (hrun : t.isRunning = s.isRunning) :
      Resumes s i (.stt point) (some t.currentState) (t, none) true :=
    .of_deadEnd hw hwork rfl (.inl rfl) hrun rfl
  have herror : Resumes s i (.stt point) (some .error)
      ((s.transitionToState .error).sttFinally, none) true := by
    refine .of_deadEnd hw (work_transitionToState s .error) rfl (.inl rfl) ?_ ?_
    · exact transitionToState_isRunning s .error
    · exact transitionToState_error s
  cases point with
  | transcribe =>
    cases outcome with
    | transcription text =>
      unfold leavesCancelled endSTT restartListening
      dsimp only
      by_cases hblank : isBlank text = true
      · rw [if_pos hblank, if_pos hblank]
        by_cases hrestarting : s.isRestarting = true
        · rw [if_pos hrestarting, hrestarting, Bool.true_or, if_pos rfl]
          exact hsame (t := s.sttFinally) rfl rfl
        · rw [if_neg hrestarting, eq_false_of_ne_true hrestarting, Bool.false_or]
          by_cases hstopped : (!s.isRunning) = true
          · rw [if_pos hstopped, if_pos hstopped]
            exact hsame (t := s.sttFinally) rfl rfl
          · rw [if_neg hstopped, if_neg hstopped]
            let u := { s.resetForRestart with isRestarting := false }
            have hu : u.work = { s.work with
                isRecording := false
                isRestarting := false
                completionWaitJob := none
                streamingTTSJob := none } := by
              show { s.resetForRestart.work with isRestarting := false } = _
              rw [work_resetForRestart]
            have hwork : (u.restartCancelled .stt).work = u.work := work_restartCancelled u .stt
            refine ⟨?_, ?_, fun _ h => (nomatch h), fun hflag => ?_, fun _ => .inr (.inl ?_)⟩
            · show s.work.posts <+: (u.restartCancelled .stt).work.posts
              rw [hwork, hu]
            · show (u.restartCancelled .stt).work.Sound
              rw [hwork, hu]
              exact hw.sound.sublist (List.Sublist.refl _) rfl (.inr rfl) (.inr rfl)
            · have hnot := congrArg PipelineWork.isRestarting (hwork.trans hu)
              cases hnot.symm.trans hflag
            · exact congrArg PipelineWork.isRecording (hwork.trans hu)
      · rw [if_neg hblank, if_neg hblank]
        exact herror
    | throws => exact herror
    | _ => exact hsame rfl rfl
  | transcribed text => exact herror
  | failed => exact hsame (t := s.sttFinally) rfl rfl

/-- A cancelled coroutine comes to a dead end, unless it speaks or restarts. -/
theorem resumes_cancelled (hw : Held s.work) (hi : s.work.posts[i]? = some (id, task)) :
    Resumes s i task (s.leavesCancelled task outcome) (s.endCancelled task outcome, none) true := by
  have hsame (htask : task.isRestart = false) :
      Resumes s i task (some s.currentState) (s, none) true :=
    .of_deadEnd hw rfl htask (.inl rfl) rfl rfl
  cases task with
  | stt point => exact resumes_sttCancelled hw
  | provider point =>
    have hcancelled (u : ProviderPoint) :
        Resumes s i (.provider u) (some s.currentState) (s.providerCancelled, none) true :=
      .of_deadEnd hw (work_providerCancelled s) rfl (.inl rfl) (providerCancelled_status s).1
        (providerCancelled_status s).2
    cases point with
    | start => exact hsame rfl
    | collect isFirstToken => exact hcancelled _
    | update isFirstToken text => exact hcancelled _
    | complete isFirstToken => exact hcancelled _
    | net => exact hcancelled _
    | failed => exact .of_deadEnd hw rfl rfl (.inl rfl) rfl rfl
  | legacy point =>
    have herror (u : LegacyPoint) :
        Resumes s i (.legacy u) (some .error) (s.transitionToState .error, none) true :=
      .of_deadEnd hw (work_transitionToState s .error) rfl (.inl rfl)
        (transitionToState_isRunning s .error) (transitionToState_error s)
    cases point with
    | start => exact hsame rfl
    | collect responseComplete => exact herror _
    | update responseComplete text => exact herror _
    | complete => exact herror _
    | net => exact herror _
    | failed => exact hsame rfl
  | tts point =>
    have hfinally (u : TtsPoint) : Resumes s i (.tts u) none (s.ttsFinally, none) true :=
      .of_done hw (ttsFinally_grown s) rfl (ttsFinally_follows hi)
    cases point with
    | start => exact hsame rfl
    | loop => exact hfinally _
    | wait => exact hfinally _
  | recordingDelay rest =>
    cases rest with
    | launched => exact hsame rfl
    | restart rest =>
      have hleaves : s.leavesCancelled (.recordingDelay (.restart rest)) outcome =
          s.leavesCancelled (.restartDelay rest) outcome := by
        cases rest with
        | launched => rfl
        | stt => rfl
        | llm rest => cases rest <;> rfl
      rw [hleaves]
      exact resumes_restartCancelled hw rest
    | newQuestion => exact hsame rfl
  | restartDelay rest => exact resumes_restartCancelled hw rest
  | startRecording => exact hsame rfl
  | record => exact hsame rfl
  | restartListening => exact hsame rfl
  | newQuestion => exact hsame rfl
  | newQuestionDelay => exact hsame rfl
  | reinitTTS => exact hsame rfl
  | awaitCompletion => exact hsame rfl
  | completionWait => exact hsame rfl

end Cancelled

section Stranded

variable {cancelled records : Bool} {outcome : Outcome} {e : Event}

theorem quiet_iff (s : VoicePipeline) :
    (∀ job ∈ s.jobs, job.task.isPending = false) ↔
      ∀ post ∈ s.work.posts, post.2.isPending = false := by
  simp [work]

theorem Attended.onward (h : Attended s) (ho : Onward s t) : Attended t := by
  refine ⟨h.held.grown ho.toGrown, ?_⟩
  intro hrun hrecord hquiet
  rw [quiet_iff] at hquiet
  rcases ho.rest with hstop | hhears | ⟨j, post, -, hpost, hpending⟩ | ⟨hsameRun, hsame, hstate⟩
  · rw [hrun] at hstop
    cases hstop
  · exact hhears
  · rw [hquiet post (List.mem_of_getElem? hpost)] at hpending
    cases hpending
  · rw [hears_congr hstate]
    refine h.kept (hsameRun ▸ hrun) (hsame.symm.trans hrecord) ?_
    rw [quiet_iff]
    exact fun post hpost => hquiet post (ho.posts.subset hpost)

theorem held_suspend (hw : Held s.work) (hi : s.work.posts[i]? = some (id, task))
    (hr : Resumes s i task left r cancelled) : Held (r.1.suspend i r.2).work := by
  have hu : r.1.work.posts[i]? = some (id, task) := getElem?_kept hr.posts hi
  -- a restart that goes on in another coroutine is still there
  have hother (hrestarting : s.work.isRestarting = true) (hplain : task.isRestart = false) :
      ∃ j post, j ≠ i ∧ r.1.work.posts[j]? = some post ∧ post.2.isRestart = true := by
    obtain ⟨j, post, hj, hpost, hrestart⟩ := hw.other_restart hi hplain hrestarting
    exact ⟨j, post, hj, getElem?_kept hr.posts hpost, hrestart⟩
  obtain ⟨v, next⟩ := r
  cases next with
  | none =>
    rw [work_suspend_none]
    refine ⟨hr.sound.sublist (List.eraseIdx_sublist _ _) rfl (.inl rfl) (.inl rfl), ?_⟩
    intro hrestarting
    rcases hr.restarts hrestarting with ⟨next, hnext, -⟩ | ⟨hrestarting, hplain⟩
    · cases hnext
    · obtain ⟨j, post, hj, hpost, hrestart⟩ := hother hrestarting hplain
      exact ⟨post, List.mem_eraseIdx_iff_getElem?.mpr ⟨j, hj, hpost⟩, hrestart⟩
  | some next =>
    obtain ⟨-, hwait, htts⟩ := hr.next next rfl
    rw [work_suspend_some hu next]
    have hmem : ∀ post ∈ v.work.posts.set i (id, next), post ∈ v.work.posts ∨ post = (id, next) :=
      fun post hpost => List.mem_or_eq_of_mem_set hpost
    have hold : (id, task) ∈ v.work.posts := List.mem_of_getElem? hu
    constructor
    · constructor
      · intro post hpost
        rcases hmem post hpost with hpost | rfl
        · exact hr.sound.ids post hpost
        · exact hr.sound.ids (id, task) hold
      · intro handle hhandle
        obtain ⟨hlt, hall⟩ := hr.sound.waits handle hhandle
        refine ⟨hlt, fun post hpost hid => ?_⟩
        rcases hmem post hpost with hpost | rfl
        · exact hall post hpost hid
        · exact hwait (hall (id, task) hold hid)
      · intro handle hhandle
        obtain ⟨hlt, hall⟩ := hr.sound.speaks handle hhandle
        refine ⟨hlt, fun post hpost hid => ?_⟩
        rcases hmem post hpost with hpost | rfl
        · exact hall post hpost hid
        · exact htts (hall (id, task) hold hid)
    · intro hrestarting
      have hlt : i < v.work.posts.length := (List.getElem?_eq_some_iff.mp hu).1
      rcases hr.restarts hrestarting with ⟨other, hnext, hrestart⟩ | ⟨hrestarting, hplain⟩
      · cases Option.some.inj hnext
        exact ⟨(id, next), List.mem_set hlt _, hrestart⟩
      · obtain ⟨j, post, hj, hpost, hrestart⟩ := hother hrestarting hplain
        refine ⟨post, List.mem_of_getElem? (i := j) ?_, hrestart⟩
        rw [List.getElem?_set_ne (Ne.symm hj)]
        exact hpost

theorem notStranded_suspend (hi : s.work.posts[i]? = some (id, task))
    (hr : Resumes s i task none r cancelled) : NotStranded (r.1.suspend i r.2) := by
  intro hrun hrecord hquiet
  rw [quiet_iff] at hquiet
  obtain ⟨v, next⟩ := r
  cases next with
  | none =>
    rw [work_suspend_none] at hquiet
    rcases hr.ends rfl with hstop | hoff | hhears | ⟨j, post, hj, hpost, hpending⟩
    · rw [show v.isRunning = true from hrun] at hstop
      cases hstop
    · rw [show v.isRecording = true from hrecord] at hoff
      cases hoff
    · exact hhears
    · rw [hquiet post (List.mem_eraseIdx_iff_getElem?.mpr ⟨j, hj, hpost⟩)] at hpending
      cases hpending
  | some next =>
    have hu := getElem?_kept hr.posts hi
    rw [work_suspend_some hu] at hquiet
    have hlt : i < v.work.posts.length := (List.getElem?_eq_some_iff.mp hu).1
    have hpending := (hr.next next rfl).1
    rw [hquiet (id, next) (List.mem_set hlt _)] at hpending
    cases hpending

/-- A dead end strands the pipeline exactly where it deserts it. -/
theorem DeadEnd.notStranded_iff {value : PipelineState} (h : DeadEnd s records value t) :
    NotStranded (t.suspend i none) ↔ s.deserts i records (some value) = false := by
  have hquiet : (∀ job ∈ (t.suspend i none).jobs, job.task.isPending = false) ↔
      (s.jobs.eraseIdx i).all (fun other => !other.task.isPending) = true := by
    have hposts : (t.suspend i none).work.posts =
        (s.jobs.eraseIdx i).map fun job => (job.id, job.task) := by
      rw [work_suspend_none, h.posts]
      exact List.eraseIdx_map _ s.jobs i
    rw [quiet_iff, hposts]
    simp
  have hhears : (t.suspend i none).hears = true ↔
      (value ≠ .listening && value ≠ .speechDetected : Bool) = false := by
    show t.hears = true ↔ _
    rw [hears, h.currentState]
    cases value <;> decide
  unfold NotStranded
  rw [hquiet, hhears]
  show (t.isRunning = true → t.isRecording = true → _) ↔ _
  rw [h.isRunning, h.isRecording]
  unfold deserts
  rw [Option.any_some]
  cases s.isRunning <;> cases s.isRecording || records <;>
    cases (s.jobs.eraseIdx i).all (fun other => !other.task.isPending) <;> simp

theorem attended_suspend (hw : Held s.work) (hi : s.work.posts[i]? = some (id, task))
    (hr : Resumes s i task left r cancelled) :
    if s.deserts i (!cancelled && task = .record) left then ¬ NotStranded (r.1.suspend i r.2)
    else Attended (r.1.suspend i r.2) := by
  have hheld := held_suspend hw hi hr
  cases left with
  | none =>
    have hstays : s.deserts i (!cancelled && task = .record) none = false := by simp [deserts]
    rw [hstays]
    exact ⟨hheld, notStranded_suspend hi hr⟩
  | some value =>
    obtain ⟨hdone, hdead⟩ := hr.ends
    have hiff : NotStranded (r.1.suspend i none) ↔
        s.deserts i (!cancelled && task = .record) (some value) = false := hdead.notStranded_iff
    rw [hdone] at hheld ⊢
    split
    next hdeserts =>
      rw [hiff, hdeserts]
      exact Bool.noConfusion
    next hstays => exact ⟨hheld, hiff.mpr (eq_false_of_ne_true hstays)⟩

theorem strands_run {job : Job} (hjob : s.jobs[i]? = some job) :
    s.strands (.run i outcome) = s.deserts i (!job.cancelled && job.task = .record)
      (if job.cancelled then s.leavesCancelled job.task outcome
        else s.leaves job.task outcome) := by
  show (match s.jobs[i]? with | some job => _ | none => false) = _
  rw [hjob]

/-- Every step keeps the invariant unless it strands the pipeline, and then it breaks it. -/
theorem step_attended (h : Attended s) (hs : s.step e = some t) :
    if s.strands e then ¬ NotStranded t else Attended t := by
  by_cases he : ∃ i outcome, e = .run i outcome
  · obtain ⟨i, outcome, rfl⟩ := he
    obtain ⟨job, hjob, hrun⟩ := Option.bind_eq_some_iff.mp hs
    have hi : s.work.posts[i]? = some (job.id, job.task) := by
      show (s.jobs.map fun job => (job.id, job.task))[i]? = _
      rw [List.getElem?_map, hjob]
      rfl
    rw [strands_run hjob]
    cases hcancelled : job.cancelled with
    | true =>
      rw [hcancelled, if_pos rfl] at hrun
      cases Option.some.inj hrun
      exact attended_suspend h.held hi (resumes_cancelled h.held hi)
    | false =>
      rw [hcancelled, if_neg Bool.false_ne_true] at hrun
      obtain ⟨r, hr, rfl⟩ := Option.map_eq_some_iff.mp hrun
      exact attended_suspend h.held hi (resumes h.held hi hr)
  · have hother : ∀ i outcome, e ≠ .run i outcome := fun i outcome heq => he ⟨i, outcome, heq⟩
    have hstays : s.strands e = false := by
      cases e with
      | run i outcome => exact absurd rfl (hother i outcome)
      | _ => rfl
    rw [hstays]
    exact h.onward (step_onward hother hs)

end Stranded

theorem start_attended (hasProvider hasQueue : Bool) : Attended (start hasProvider hasQueue) := by
  refine ⟨⟨⟨nofun, nofun, nofun⟩, nofun⟩, ?_⟩
  intro hrun
  cases hrun

/-- The pipeline is never stranded in a run exactly when no step of the run strands it. -/
theorem never_stranded_iff {hasProvider hasQueue : Bool} {es : List Event}
    (hr : Machine.run step (start hasProvider hasQueue) es = some t) :
    Always step NotStranded (start hasProvider hasQueue) es ↔
      Meets step (fun s e => s.strands e = false) (start hasProvider hasQueue) es := by
  refine always_iff_meets (I := Attended) (fun s h => h.kept) ?_ ?_ (start_attended _ _) hr
  · intro s e u h hstays hs
    have hnext := step_attended h hs
    rw [hstays] at hnext
    exact hnext
  · intro s e u h hstrands hs
    have hnext := step_attended h hs
    rw [eq_true_of_ne_false hstrands] at hnext
    exact hnext

/-- A question whose transcription is blank: the pipeline records again and listens. -/
theorem never_stranded_blank :
    Always step NotStranded (start true true)
      [.initialized, .startVoiceConversation, .run 0 (.resume {}),
        .run 0 (.resume { recordingStarted := true }),
        .frame ⟨512, .speechStart, false, true, false, false⟩,
        .frame ⟨512, .speechEnd, false, true, false, false⟩,
        .run 0 (.transcription []), .run 0 (.resume {}),
        .run 0 (.resume { recordingStarted := true })] :=
  (@never_stranded_iff _ true true _ rfl).mpr (by decide)

/-- An exception of the transcription: the pipeline runs and records in the state of an error, and
no coroutine is left to bring it back. -/
theorem transcription_error_strands : ∃ s,
    Machine.run step (start true true)
      [.initialized, .startVoiceConversation, .run 0 (.resume {}),
        .run 0 (.resume { recordingStarted := true }),
        .frame ⟨512, .speechStart, false, true, false, false⟩,
        .frame ⟨512, .speechEnd, false, true, false, false⟩,
        .run 0 .throws, .run 0 (.resume {})] = some s ∧
    s.currentState = .error ∧ s.jobs = [] ∧ ¬ NotStranded s :=
  ⟨_, rfl, rfl, rfl, by decide⟩

end HeyNilo.VoicePipeline
