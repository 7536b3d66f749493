import HeyNilo.DownloadContents

namespace HeyNilo.OfflineModelPicker

variable {server : Nat → ModelServer} {renames : Nat → Bool} {files : ModelFiles}

theorem downloadOnce_succeeded_iff (server : ModelServer) (renames : Bool) (files : ModelFiles) :
    (downloadOnce server renames (fileLength files.temp) files).succeeded = true ↔
      ∃ reply, server (resumeRange files.temp) = .ok reply ∧ Passes renames files.temp reply := by
  constructor
  · intro h
    obtain ⟨-, -, hpasses⟩ | ⟨⟨message, hmessage⟩, -⟩ := downloadOnce_cases server renames files
    · exact hpasses
    · rw [Attempt.succeeded, hmessage] at h
      cases h
  · rintro ⟨reply, hreply, hp⟩
    rw [downloadOnce_of_passes hreply hp]
    rfl

theorem downloadOnce_renamed (server : ModelServer) (renames : Bool) (files : ModelFiles) :
    (downloadOnce server renames (fileLength files.temp) files).renamed =
      (downloadOnce server renames (fileLength files.temp) files).succeeded := by
  obtain ⟨houtcome, hrenamed, -⟩ | ⟨⟨message, hmessage⟩, hrenamed, -⟩ :=
    downloadOnce_cases server renames files
  · rw [hrenamed, Attempt.succeeded, houtcome]
  · rw [hrenamed, Attempt.succeeded, hmessage]

/-- An attempt that fails leaves the output file alone. -/
theorem downloadOnce_failed_output {server : ModelServer} {renames : Bool} {files : ModelFiles}
    (h : (downloadOnce server renames (fileLength files.temp) files).succeeded = false) :
    (downloadOnce server renames (fileLength files.temp) files).files.output = files.output := by
  obtain ⟨houtcome, -⟩ | ⟨-, -, houtput⟩ := downloadOnce_cases server renames files
  · rw [Attempt.succeeded, houtcome] at h
    cases h
  · exact houtput

/-- In a run the file is renamed by an attempt exactly if that attempt succeeds. -/
theorem renamed_of_mem {attempt : Attempt}
    (h : attempt ∈ (downloadWithRetry server renames files).1) :
    attempt.renamed = attempt.succeeded :=
  RetryLoop.forall_mem_run (P := fun attempt => attempt.renamed = attempt.succeeded)
    (fun n s => downloadOnce_renamed (server n) (renames n) s) _ _ _ _ h

/-- A run that fails to the end leaves the output file alone, though it returns. -/
theorem downloadWithRetry_failed_output
    (h : ∀ attempt ∈ (downloadWithRetry server renames files).1, attempt.succeeded = false) :
    (downloadWithRetry server renames files).2.output = files.output :=
  RetryLoop.run_invariant (I := fun s => s.output = files.output)
    (fun _ _ hs hfailed => (downloadOnce_failed_output hfailed).trans hs) rfl h

/-- The reply to the attempt after `i` others passes the checks. -/
def Succeeds (server : Nat → ModelServer) (renames : Nat → Bool) (files : ModelFiles) (i : Nat) :
    Prop :=
  let temp := (RetryLoop.before (tryOnce server renames) 1 files i).temp
  ∃ reply, server (1 + i) (resumeRange temp) = .ok reply ∧ Passes (renames (1 + i)) temp reply

theorem downloadWithRetry_renames_iff :
    (∃ attempt ∈ (downloadWithRetry server renames files).1, attempt.renamed = true) ↔
      ∃ i < maxAttempts, Succeeds server renames files i := by
  have hsucceeds := RetryLoop.exists_ok_iff (tryOnce server renames) Attempt.succeeded maxAttempts 1
    files
  constructor
  · rintro ⟨attempt, hmem, hrenamed⟩
    obtain ⟨i, hi, hok⟩ := hsucceeds.mp ⟨attempt, hmem, (renamed_of_mem hmem).symm.trans hrenamed⟩
    exact ⟨i, hi, (downloadOnce_succeeded_iff ..).mp hok⟩
  · rintro ⟨i, hi, hpasses⟩
    obtain ⟨attempt, hmem, hok⟩ :=
      hsucceeds.mpr ⟨i, hi, (downloadOnce_succeeded_iff ..).mpr hpasses⟩
    exact ⟨attempt, hmem, (renamed_of_mem hmem).trans hok⟩

/-- `onComplete` tells whether an attempt renamed the file exactly if the preparation fails or one of
the first 500 attempts succeeds. -/
theorem reports_success_iff (formatDouble : Text → Int → Nat → Text) (dirReady : Bool)
    (head : Option HeadReply) (freeSpace : Nat) (server : Nat → ModelServer)
    (renames : Nat → Bool) (files : ModelFiles) :
    (((startDownload formatDouble dirReady head freeSpace server renames files).onComplete.1 = true ↔
        ∃ attempt ∈
          (startDownload formatDouble dirReady head freeSpace server renames files).attempts,
          attempt.renamed = true) ∧
      ((∀ attempt ∈
          (startDownload formatDouble dirReady head freeSpace server renames files).attempts,
          attempt.succeeded = false) →
        ∃ message,
          (startDownload formatDouble dirReady head freeSpace server renames files).onComplete =
            (false, some message))) ↔
      (∃ message, prepare formatDouble dirReady head freeSpace = .error message) ∨
        ∃ i < maxAttempts, Succeeds server renames files i := by
  unfold startDownload
  cases hprepare : prepare formatDouble dirReady head freeSpace with
  | error message => simp
  | ok total =>
    have hnone : ¬ ∃ message : Text, (Except.ok total : Except Text Int) = .error message :=
      fun ⟨message, h⟩ => nomatch h
    simp only [hnone, false_or, true_iff]
    rw [← downloadWithRetry_renames_iff]
    constructor
    · exact fun h => h.1
    · rintro ⟨attempt, hmem, hrenamed⟩
      refine ⟨⟨attempt, hmem, hrenamed⟩, fun hall => ?_⟩
      have hfailed := (renamed_of_mem hmem).trans (hall attempt hmem)
      rw [hrenamed] at hfailed
      cases hfailed

/-- With the network gone after the HEAD request every attempt fails, and success is reported. -/
theorem failure_reported_as_success :
    let run := startDownload (fun _ _ _ => []) true (some ⟨true, none, some "2".toList⟩) 10
      (fun _ _ => .error none) (fun _ => true) {}
    run.onComplete = (true, none) ∧ (∀ attempt ∈ run.attempts, attempt.succeeded = false) ∧
      run.files.output = none := by
  have hfails := RetryLoop.run_fails (tryOnce (fun _ _ => .error none) fun _ => true)
    Attempt.succeeded (I := fun s => s = {}) (fun _ s hs => ⟨rfl, hs⟩) maxAttempts 1 rfl
  exact ⟨rfl, hfails.1, congrArg ModelFiles.output hfails.2⟩

end HeyNilo.OfflineModelPicker
