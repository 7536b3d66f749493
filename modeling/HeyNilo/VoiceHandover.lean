import HeyNilo.VoiceJobs

namespace HeyNilo.VoicePipeline

/-- The handles are sound, and while a restart is under way its coroutine is there. -/
structure Held (w : PipelineWork) : Prop where
  sound : w.Sound
  restarts : w.isRestarting = true → ∃ post ∈ w.posts, post.2.isRestart = true

variable {s t : VoicePipeline} {i id : Nat} {task : Task} {r : Resumed}

theorem Held.grown (h : Held s.work) (hg : Grown s t) : Held t.work := by
  refine ⟨hg.sound h.sound, fun hrestarting => ?_⟩
  rw [hg.isRestarting] at hrestarting
  obtain ⟨post, hpost, hrestart⟩ := h.restarts hrestarting
  exact ⟨post, hg.posts.subset hpost, hrestart⟩

/-- Once the coroutine at place `i` is done, something goes on or nothing has to. -/
def Follows (i : Nat) (t : VoicePipeline) : Prop :=
  t.isRunning = false ∨ t.isRecording = false ∨ t.hears = true ∨
    ∃ j post, j ≠ i ∧ t.work.posts[j]? = some post ∧ post.2.isPending = true

/-- A coroutine that leaves the pipeline to itself in the state `value`; it may have started the
recorder. -/
structure DeadEnd (s : VoicePipeline) (records : Bool) (value : PipelineState) (t : VoicePipeline) :
    Prop where
  posts : t.work.posts = s.work.posts
  isRunning : t.isRunning = s.isRunning
  isRecording : t.isRecording = (s.isRecording || records)
  currentState : t.currentState = value

/-- The coroutine at place `i`, which was at `task`, is resumed or cancelled: what it launches, where
it goes on, and what it leaves behind if its step is the last one. -/
structure Resumes (s : VoicePipeline) (i : Nat) (task : Task) (left : Option PipelineState)
    (r : Resumed) (cancelled : Bool := false) : Prop where
  posts : s.work.posts <+: r.1.work.posts
  sound : r.1.work.Sound
  next : ∀ next, r.2 = some next → next.isPending = true ∧
    (task.isWait = true → next.isWait = true) ∧ (task.isTts = true → next.isTts = true)
  restarts : r.1.work.isRestarting = true →
    (∃ next, r.2 = some next ∧ next.isRestart = true) ∨
      (s.work.isRestarting = true ∧ task.isRestart = false)
  ends : match left with
    | none => r.2 = none → Follows i r.1
    | some value => r.2 = none ∧ DeadEnd s (!cancelled && task = .record) value r.1

/-- A coroutine to which no handle and no restart is tied. -/
def Task.isPlain (task : Task) : Bool := !task.isWait && !task.isTts && !task.isRestart

section Resumes

theorem Task.isPlain_iff :
    task.isPlain = true ↔ task.isWait = false ∧ task.isTts = false ∧ task.isRestart = false := by
  simp [Task.isPlain, and_assoc]

theorem Task.isPending_of_isWait (h : task.isWait = true) : task.isPending = true := by
  cases task <;> first | rfl | cases h

theorem Task.isPending_of_isTts (h : task.isTts = true) : task.isPending = true := by
  cases task <;> first | rfl | cases h

theorem Task.isPending_of_isRestart (h : task.isRestart = true) : task.isPending = true := by
  cases task <;> first | rfl | cases h

theorem lt_length (hi : s.work.posts[i]? = some (id, task)) : i < s.work.posts.length :=
  (List.getElem?_eq_some_iff.mp hi).1

theorem Grown.post (hg : Grown s t) (hi : s.work.posts[i]? = some (id, task)) :
    t.work.posts[i]? = some (id, task) := getElem?_kept hg.posts hi

/-- What was launched on the way does not matter to where the coroutine goes on. -/
theorem Resumes.after (h : Resumes t i task none r) (hg : Grown s t) : Resumes s i task none r := by
  refine ⟨hg.posts.trans h.posts, h.sound, h.next, fun hrestarting => ?_, h.ends⟩
  rcases h.restarts hrestarting with hnext | ⟨hold, hplain⟩
  · exact .inl hnext
  · exact .inr ⟨hg.isRestarting.symm.trans hold, hplain⟩

theorem Resumes.of_kind {next : Task} (hw : Held s.work) (hg : Grown s t)
    (htask : task.isRestart = false) (hnext : next.isPending = true)
    (hwait : task.isWait = true → next.isWait = true)
    (htts : task.isTts = true → next.isTts = true) : Resumes s i task none (t, some next) := by
  refine ⟨hg.posts, hg.sound hw.sound, ?_, fun hrestarting => ?_, fun hnone => by cases hnone⟩
  · intro other hother
    cases Option.some.inj hother
    exact ⟨hnext, hwait, htts⟩
  · exact .inr ⟨hg.isRestarting.symm.trans hrestarting, htask⟩

theorem Resumes.of_next {next : Task} (hw : Held s.work) (hg : Grown s t)
    (htask : task.isPlain = true) (hnext : next.isPending = true) :
    Resumes s i task none (t, some next) := by
  obtain ⟨hwait, htts, hrestart⟩ := Task.isPlain_iff.mp htask
  refine .of_kind hw hg hrestart hnext ?_ ?_
  · rw [hwait]
    exact Bool.noConfusion
  · rw [htts]
    exact Bool.noConfusion

theorem Resumes.of_done {cancelled : Bool} (hw : Held s.work) (hg : Grown s t)
    (htask : task.isRestart = false) (hf : Follows i t) :
    Resumes s i task none (t, none) cancelled := by
  refine ⟨hg.posts, hg.sound hw.sound, fun _ h => (nomatch h), fun hrestarting => ?_, fun _ => hf⟩
  exact .inr ⟨hg.isRestarting.symm.trans hrestarting, htask⟩

theorem Resumes.of_deadEnd {value : PipelineState} {cancelled : Bool} (hw : Held s.work)
    (hwork : t.work = s.work) (htask : task.isRestart = false)
    (hrecord : cancelled = true ∨ task ≠ .record) (hrun : t.isRunning = s.isRunning)
    (hstate : t.currentState = value) : Resumes s i task (some value) (t, none) cancelled := by
  have hg : Grown s t := .of_work hwork
  refine ⟨hg.posts, hg.sound hw.sound, fun _ h => (nomatch h), fun hrestarting => ?_, rfl, ?_⟩
  · exact .inr ⟨hg.isRestarting.symm.trans hrestarting, htask⟩
  · refine ⟨congrArg PipelineWork.posts hwork, hrun, ?_, hstate⟩
    have hsame : t.isRecording = s.isRecording := congrArg PipelineWork.isRecording hwork
    rcases hrecord with hrecord | hrecord
    · simp [hsame, hrecord]
    · simp [hsame, hrecord]

end Resumes

section Follows

theorem Follows.of_listening (h : t.isRunning = false ∨ t.hears = true) : Follows i t := by
  rcases h with hstop | hhears
  · exact .inl hstop
  · exact .inr (.inr (.inl hhears))

theorem Follows.of_post {j : Nat} {post : Nat × Task} (hj : j ≠ i)
    (hpost : t.work.posts[j]? = some post) (hpending : post.2.isPending = true) : Follows i t :=
  .inr (.inr (.inr ⟨j, post, hj, hpost, hpending⟩))

theorem Follows.of_last {post : Nat × Task} (hi : s.work.posts[i]? = some (id, task))
    (hposts : t.work.posts = s.work.posts ++ [post]) (hpending : post.2.isPending = true) :
    Follows i t := by
  have hlt := lt_length hi
  have hne : s.work.posts.length ≠ i := by omega
  refine .of_post hne ?_ hpending
  rw [hposts]
  exact List.getElem?_concat_length

theorem Follows.of_launch {other : Task} (hi : s.work.posts[i]? = some (id, task))
    (hwork : t.work = s.work.launch other) (hpending : other.isPending = true) : Follows i t := by
  have hposts : t.work.posts = s.work.posts ++ [(s.work.nextId, other)] := by
    rw [hwork]
    rfl
  exact .of_last hi hposts hpending

/-- What goes onward from a stopped pipeline starts it with a job, or leaves it stopped. -/
theorem Follows.of_onward (hi : s.work.posts[i]? = some (id, task)) (ho : Onward s t)
    (h : s.isRunning = false) : Follows i t := by
  have hlt := lt_length hi
  rcases ho.rest with hstop | hhears | ⟨j, post, hj, hpost, hpending⟩ | ⟨hrun, -, -⟩
  · exact .inl hstop
  · exact .inr (.inr (.inl hhears))
  · have hne : j ≠ i := by omega
    exact .of_post hne hpost hpending
  · exact .inl (hrun.trans h)

theorem Follows.of_other {j : Nat} {post : Nat × Task} (hg : Grown s t) (hj : j ≠ i)
    (hpost : s.work.posts[j]? = some post) (hpending : post.2.isPending = true) : Follows i t :=
  .of_post hj (getElem?_kept hg.posts hpost) hpending

theorem exists_post_of_isActive {handle : Option Nat} (h : s.isActive handle = true) :
    ∃ (j : Nat) (post : Nat × Task), s.work.posts[j]? = some post ∧ handle = some post.1 := by
  obtain ⟨job, hjob, hactive⟩ := List.any_eq_true.mp h
  obtain ⟨j, hj⟩ := List.mem_iff_getElem?.mp hjob
  refine ⟨j, (job.id, job.task), ?_, ?_⟩
  · show (s.jobs.map fun job => (job.id, job.task))[j]? = _
    rw [List.getElem?_map, hj]
    rfl
  · have hboth : handle = some job.id ∧ job.cancelled = false := by simpa using hactive
    exact hboth.1

theorem other_place {kind : Task → Bool} {j : Nat} {post : Nat × Task}
    (hi : s.work.posts[i]? = some (id, task)) (htask : kind task = false)
    (hj : s.work.posts[j]? = some post) (hpost : kind post.2 = true) : j ≠ i := by
  rintro rfl
  rw [hi] at hj
  cases hj
  rw [htask] at hpost
  cases hpost

/-- The holder of a restart is another coroutine than one that does not restart. -/
theorem Held.other_restart (hw : Held s.work) (hi : s.work.posts[i]? = some (id, task))
    (htask : task.isRestart = false) (h : s.work.isRestarting = true) :
    ∃ j post, j ≠ i ∧ s.work.posts[j]? = some post ∧ post.2.isRestart = true := by
  obtain ⟨post, hpost, hrestart⟩ := hw.restarts h
  obtain ⟨j, hj⟩ := List.mem_iff_getElem?.mp hpost
  exact ⟨j, post, other_place hi htask hj hrestart, hj, hrestart⟩

end Follows

section Operations

theorem work_awaitCompletionAndListen (s : VoicePipeline) :
    s.awaitCompletionAndListen.work = if s.isActive s.completionWaitJob then s.work
      else { s.work.launch .completionWait with completionWaitJob := some s.work.nextId } := by
  unfold awaitCompletionAndListen
  split
  next => rfl
  next =>
    show { (s.launch .completionWait).work with completionWaitJob := some s.nextId } = _
    rw [work_launch]
    rfl

theorem awaitCompletionAndListen_grown (s : VoicePipeline) : Grown s s.awaitCompletionAndListen := by
  refine ⟨fun hsound => ?_, ?_, ?_⟩
  all_goals rw [work_awaitCompletionAndListen]; split
  · exact hsound
  · exact hsound.launchWait
  · exact List.prefix_rfl
  · exact List.prefix_append _ _
  · rfl
  · rfl

/-- The completion wait is there, under its handle or as a new job. -/
theorem awaitCompletionAndListen_follows (hw : Held s.work)
    (hi : s.work.posts[i]? = some (id, task)) (htask : task.isWait = false) :
    Follows i s.awaitCompletionAndListen := by
  by_cases hactive : s.isActive s.completionWaitJob = true
  · obtain ⟨j, post, hj, hhandle⟩ := exists_post_of_isActive hactive
    obtain ⟨-, hall⟩ := hw.sound.waits post.1 hhandle
    have hwait := hall post (List.mem_of_getElem? hj) rfl
    exact .of_other (awaitCompletionAndListen_grown s) (other_place hi htask hj hwait) hj
      (Task.isPending_of_isWait hwait)
  · have hposts : s.awaitCompletionAndListen.work.posts =
        s.work.posts ++ [(s.work.nextId, .completionWait)] := by
      rw [work_awaitCompletionAndListen, if_neg hactive]
      rfl
    exact .of_last hi hposts rfl

theorem afterStream_grown (s : VoicePipeline) : Grown s s.afterStream := by
  unfold afterStream
  split
  next => exact .refl s
  next => exact awaitCompletionAndListen_grown s

theorem afterStream_follows (hw : Held s.work) (hi : s.work.posts[i]? = some (id, task))
    (htask : task.isWait = false) (h : isBlank s.finalBubbleText = false) :
    Follows i s.afterStream := by
  unfold afterStream
  rw [if_neg (by simp [h])]
  exact awaitCompletionAndListen_follows hw hi htask

theorem work_startStreamingTTS (s : VoicePipeline) (ready : Bool) :
    (s.startStreamingTTS ready).work = if s.isActive s.streamingTTSJob then s.work
      else if !ready then s.work.launch .reinitTTS
      else if s.isStreamingTTSActive then s.work
      else { s.work.launch (.tts .start) with streamingTTSJob := some s.work.nextId } := by
  unfold startStreamingTTS
  split
  next => rfl
  split
  next => exact work_launch s .reinitTTS
  split
  next => rfl
  next =>
    let u := ({ s with isStreamingTTSActive := true }.transitionToState .speaking).clearBuffers
    have hu : u.work = s.work := by
      show (transitionToState { s with isStreamingTTSActive := true } .speaking).work = _
      rw [work_transitionToState]
      rfl
    show { (u.launch (.tts .start)).work with streamingTTSJob := some u.work.nextId } = _
    rw [work_launch, hu]

theorem startStreamingTTS_grown (s : VoicePipeline) (ready : Bool) :
    Grown s (s.startStreamingTTS ready) := by
  refine ⟨fun hsound => ?_, ?_, ?_⟩
  all_goals rw [work_startStreamingTTS]; split_ifs
  · exact hsound
  · exact hsound.launch _
  · exact hsound
  · exact hsound.launchTts .start
  · exact List.prefix_rfl
  · exact List.prefix_append _ _
  · exact List.prefix_rfl
  · exact List.prefix_append _ _
  · rfl
  · rfl
  · rfl
  · rfl

theorem startStreamingTTS_finalBubbleText (s : VoicePipeline) (ready : Bool) :
    (s.startStreamingTTS ready).finalBubbleText = s.finalBubbleText := by
  unfold startStreamingTTS transitionToState setCurrentState
  dsimp only
  split_ifs <;> rfl

/-- The engine that came up again speaks, or another attempt is launched, unless the speech is held
to be active without its job. -/
theorem startStreamingTTS_follows (hw : Held s.work) (hi : s.work.posts[i]? = some (id, task))
    (htask : task.isTts = false) {ready : Bool}
    (h : (ready && s.isStreamingTTSActive && !s.isActive s.streamingTTSJob) = false) :
    Follows i (s.startStreamingTTS ready) := by
  by_cases hactive : s.isActive s.streamingTTSJob = true
  · obtain ⟨j, post, hj, hhandle⟩ := exists_post_of_isActive hactive
    obtain ⟨-, hall⟩ := hw.sound.speaks post.1 hhandle
    have htts := hall post (List.mem_of_getElem? hj) rfl
    exact .of_other (startStreamingTTS_grown s ready) (other_place hi htask hj htts) hj
      (Task.isPending_of_isTts htts)
  · have hwork := work_startStreamingTTS s ready
    rw [if_neg hactive] at hwork
    by_cases hready : ready = true
    · have hidle : s.isStreamingTTSActive = false := by simpa [hready, hactive] using h
      rw [if_neg (by simp [hready]), if_neg (by simp [hidle])] at hwork
      have hposts : (s.startStreamingTTS ready).work.posts =
          s.work.posts ++ [(s.work.nextId, .tts .start)] := by
        rw [hwork]
        rfl
      exact .of_last hi hposts rfl
    · rw [if_pos (by simp [hready])] at hwork
      exact .of_launch hi hwork rfl

theorem speakIfIdle_grown (s : VoicePipeline) (p : Bool) (ready : Bool) :
    Grown s (if p then s.startStreamingTTS ready else s) := by
  split
  next => exact startStreamingTTS_grown s ready
  next => exact .refl s

end Operations

section Restart

theorem Held.resetForRestart (hw : Held s.work) : s.resetForRestart.work.Sound := by
  rw [work_resetForRestart]
  exact hw.sound.sublist (List.Sublist.refl _) rfl (.inr rfl) (.inr rfl)

theorem afterRestart_grown (s : VoicePipeline) (rest : AfterRestart) :
    Grown s (s.afterRestart rest).1 := by
  cases rest with
  | launched => exact .refl s
  | stt => exact .of_work rfl
  | llm rest =>
    cases rest with
    | complete isFirstToken => exact .refl s
    | providerNet => exact (afterStream_grown s).trans (.of_work rfl)
    | legacyNet => exact afterStream_grown s
    | failed => exact .of_work rfl

theorem afterRestart_isPending (s : VoicePipeline) (rest : AfterRestart) {next : Task}
    (h : (s.afterRestart rest).2 = some next) : next.isPending = true := by
  cases rest with
  | launched => cases h
  | stt => cases h
  | llm rest =>
    cases rest with
    | complete isFirstToken =>
      cases Option.some.inj h
      rfl
    | _ => cases h

theorem afterRestart_isRunning (s : VoicePipeline) (rest : AfterRestart) :
    (s.afterRestart rest).1.isRunning = s.isRunning :=
  congrArg PipelineStatus.isRunning (status_afterRestart s rest)

theorem afterRestart_currentState (s : VoicePipeline) (rest : AfterRestart) :
    (s.afterRestart rest).1.currentState = s.currentState :=
  congrArg PipelineStatus.currentState (status_afterRestart s rest)

/-- The caller of a restart goes on; what follows it follows already. -/
theorem resumes_afterRestart (hw : Held s.work) (htask : task.isPlain = true) (rest : AfterRestart)
    (hf : Follows i (s.afterRestart rest).1) : Resumes s i task none (s.afterRestart rest) := by
  obtain ⟨hwait, htts, hrestart⟩ := Task.isPlain_iff.mp htask
  have hg := afterRestart_grown s rest
  refine ⟨hg.posts, hg.sound hw.sound, ?_, fun hrestarting => ?_, fun _ => hf⟩
  · intro next hnext
    rw [hwait, htts]
    exact ⟨afterRestart_isPending s rest hnext, fun h => (nomatch h), fun h => (nomatch h)⟩
  · exact .inr ⟨hg.isRestarting.symm.trans hrestarting, hrestart⟩

/-- A restart is under way elsewhere, or is not wanted, or goes on here. -/
theorem resumes_restartListening (hw : Held s.work) (hi : s.work.posts[i]? = some (id, task))
    (htask : task.isPlain = true) (rest : AfterRestart) :
    Resumes s i task none (s.restartListening rest) := by
  obtain ⟨hwait, htts, hrestart⟩ := Task.isPlain_iff.mp htask
  unfold restartListening
  split
  next hrestarting =>
    obtain ⟨j, post, hj, hpost, hholder⟩ := hw.other_restart hi hrestart hrestarting
    refine resumes_afterRestart hw htask rest ?_
    exact .of_other (afterRestart_grown s rest) hj hpost (Task.isPending_of_isRestart hholder)
  split
  next hstopped =>
    refine resumes_afterRestart hw htask rest (.inl ?_)
    rw [afterRestart_isRunning]
    simpa using hstopped
  next =>
    refine ⟨?_, hw.resetForRestart, ?_, fun _ => .inl ⟨_, rfl, rfl⟩, fun hnone => nomatch hnone⟩
    · rw [work_resetForRestart]
    · intro next hnext
      cases Option.some.inj hnext
      rw [hwait, htts]
      exact ⟨rfl, fun h => (nomatch h), fun h => (nomatch h)⟩

end Restart

section Recording

/-- The state in which `startRecording` starts the recorder. -/
def listenFirst (s : VoicePipeline) : VoicePipeline :=
  if s.currentState ≠ .listening then s.transitionToListening else s

theorem work_listenFirst (s : VoicePipeline) : s.listenFirst.work = s.work := by
  unfold listenFirst
  split
  next => exact work_transitionToListening s
  next => rfl

theorem listenFirst_hears (s : VoicePipeline) :
    s.listenFirst.isRunning = false ∨ s.listenFirst.hears = true := by
  unfold listenFirst
  split
  next => exact transitionToListening_hears s
  next h =>
    refine .inr ?_
    have hstate : s.currentState = .listening := by simpa using h
    simp [hears, hstate]

/-- The recorder job is launched under its handle. -/
def launchRecord (s : VoicePipeline) : VoicePipeline :=
  { s.launch .record with pipelineJob := some s.nextId }

theorem recordNow_eq (s : VoicePipeline) (rest : AfterRecording) :
    s.recordNow rest = s.listenFirst.launchRecord.afterRecording rest := rfl

theorem work_launchRecord (s : VoicePipeline) : s.launchRecord.work = s.work.launch .record :=
  work_launch s .record

theorem listenFirst_launchRecord_grown (s : VoicePipeline) : Grown s s.listenFirst.launchRecord := by
  have hwork : s.listenFirst.launchRecord.work = s.work.launch .record := by
    rw [work_launchRecord, work_listenFirst]
  exact .of_launch .record hwork

theorem stopRecorder_grown (s : VoicePipeline) : Grown s s.stopRecorder :=
  .of_stop (work_stopRecorder s)

theorem resumes_recordNow_launched (hw : Held s.work) (htask : task.isRestart = false) :
    Resumes s i task none (s.recordNow .launched) := by
  rw [recordNow_eq]
  exact .of_done hw (listenFirst_launchRecord_grown s) htask (.of_listening (listenFirst_hears s))

theorem resumes_recordNow_newQuestion (hw : Held s.work) (htask : task.isRestart = false) :
    Resumes s i task none (s.recordNow .newQuestion) := by
  rw [recordNow_eq]
  have hg : Grown s (s.listenFirst.launchRecord.transitionToState .listening) :=
    (listenFirst_launchRecord_grown s).trans (.of_work (work_transitionToState _ _))
  refine .of_done hw hg htask (.of_listening (.inr ?_))
  rw [hears, transitionToState_listening]
  rfl

/-- A restart that comes to its end is no longer under way. -/
theorem resumes_recordNow_restart (hw : Held s.work) (hwait : task.isWait = false)
    (htts : task.isTts = false) (rest : AfterRestart) :
    Resumes s i task none (s.recordNow (.restart rest)) := by
  rw [recordNow_eq]
  let v := s.listenFirst.launchRecord.transitionToListening
  have hv : Grown s v :=
    (listenFirst_launchRecord_grown s).trans (.of_work (work_transitionToListening _))
  let x : VoicePipeline := { v with isRestarting := false }
  have hg := afterRestart_grown x rest
  have hsound : x.work.Sound :=
    (hv.sound hw.sound).sublist (List.Sublist.refl _) rfl (.inl rfl) (.inl rfl)
  refine ⟨hv.posts.trans hg.posts, hg.sound hsound, ?_, fun hrestarting => ?_, fun _ => ?_⟩
  · intro next hnext
    rw [hwait, htts]
    exact ⟨afterRestart_isPending _ rest hnext, fun h => (nomatch h), fun h => (nomatch h)⟩
  · cases hg.isRestarting.symm.trans hrestarting
  · refine .of_listening ?_
    show (x.afterRestart rest).1.isRunning = false ∨ (x.afterRestart rest).1.hears = true
    rw [afterRestart_isRunning, hears_congr (afterRestart_currentState x rest)]
    exact transitionToListening_hears _

theorem resumes_startRecording (hw : Held s.work) {rest : AfterRecording}
    (hnow : s.isRecording = false → Resumes s i task none (s.recordNow rest))
    (hwait : task.isWait = true → (Task.recordingDelay rest).isWait = true)
    (htts : task.isTts = false)
    (hrestart : task.isRestart = true → (Task.recordingDelay rest).isRestart = true) :
    Resumes s i task none (s.startRecording rest) := by
  unfold startRecording
  split
  next =>
    have hg := stopRecorder_grown s
    refine ⟨hg.posts, hg.sound hw.sound, ?_, fun hrestarting => ?_, fun hnone => nomatch hnone⟩
    · intro next hnext
      cases Option.some.inj hnext
      rw [htts]
      exact ⟨rfl, hwait, fun h => (nomatch h)⟩
    · by_cases h : task.isRestart = true
      · exact .inl ⟨_, rfl, hrestart h⟩
      · exact .inr ⟨hg.isRestarting.symm.trans hrestarting, eq_false_of_ne_true h⟩
  next hoff => exact hnow (eq_false_of_ne_true hoff)

end Recording

end HeyNilo.VoicePipeline
