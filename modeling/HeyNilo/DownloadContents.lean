import HeyNilo.Downloads

namespace HeyNilo

variable {remote : Bytes}

/-- The bytes of a reply are those of the remote file in their order, from the start of the range in
a 206 and from the first byte elsewhere. -/
def ModelReply.IsPartOf (reply : ModelReply) (remote : Bytes) (range : Option Nat) : Prop :=
  reply.body.flatten <+: remote.drop (if reply.code = 206 then range.getD 0 else 0)

def Honest (remote : Bytes) (server : ModelServer) : Prop :=
  ∀ range reply, server range = .ok reply → reply.IsPartOf remote range

/-- What a download writes behind the bytes it keeps. -/
def ModelReply.written (reply : ModelReply) (active : Option Nat) : Bytes :=
  (readLoop reply.broken active reply.body).1

def ModelReply.thrown (reply : ModelReply) (active : Option Nat) : Option (Option Text) :=
  (readLoop reply.broken active reply.body).2

/-- The kept bytes begin the remote file and as many are written as it has behind them. -/
def Arrives (remote kept written : Bytes) : Prop :=
  kept <+: remote ∧ kept.length + written.length = remote.length

theorem readLoop_initial (broken : Option (Option Text)) (active : Option Nat) (body : List Bytes) :
    (readLoop broken active body).1 <+: body.flatten := by
  induction body generalizing active with
  | nil =>
    cases active with
    | none => exact List.prefix_rfl
    | some k => cases k <;> exact List.prefix_rfl
  | cons piece rest ih =>
    cases active with
    | none => exact List.prefix_append_right_inj piece |>.mpr (ih none)
    | some k =>
      cases k with
      | zero => exact List.nil_prefix
      | succ k => exact List.prefix_append_right_inj piece |>.mpr (ih (some k))

theorem readLoop_none (broken : Option (Option Text)) (body : List Bytes) :
    readLoop broken none body = (body.flatten, broken) := by
  induction body with
  | nil => rfl
  | cons piece rest ih => simp [readLoop, ih]

/-- Bytes of the remote file behind the kept ones complete it exactly if they arrive. -/
theorem append_eq_iff {kept written : Bytes} (h : written <+: remote.drop kept.length) :
    kept ++ written = remote ↔ Arrives remote kept written := by
  constructor
  · rintro rfl
    exact ⟨List.prefix_append .., (List.length_append ..).symm⟩
  · rintro ⟨hkept, hlen⟩
    have hrest : written = remote.drop kept.length := by
      refine h.eq_of_length ?_
      rw [List.length_drop]
      omega
    rw [hrest]
    exact List.prefix_iff_eq_append.mp hkept

/-- The same for what a reply to a request from the end of the kept bytes leaves. -/
theorem kept_append_eq_iff {reply : ModelReply} {range : Option Nat} {temp : Option Bytes}
    (active : Option Nat) (hpart : reply.IsPartOf remote range)
    (hrange : range.getD 0 = fileLength temp) :
    reply.kept temp ++ reply.written active = remote ↔
      Arrives remote (reply.kept temp) (reply.written active) := by
  refine append_eq_iff ((readLoop_initial ..).trans ?_)
  unfold ModelReply.IsPartOf at hpart
  unfold ModelReply.kept
  split
  next h => simpa [h, hrange, fileLength] using hpart
  next h => simpa [h] using hpart

theorem getD_map_length (temp : Option Bytes) :
    (temp.map List.length).getD 0 = fileLength temp := by
  cases temp <;> rfl

namespace ModelDownloader

variable {digest : Bytes → Option Text} {info : ModelInfo} {server : ModelServer} {renames : Bool}
  {active : Option Nat} {files : ModelFiles} {reply : ModelReply}

def reportsComplete : Except (Option Text) DownloadState → Bool
  | .ok state => state.isComplete
  | .error _ => false

/-- The checks that `downloadModel` makes of a reply. -/
def Passes (digest : Bytes → Option Text) (info : ModelInfo) (renames : Bool) (active : Option Nat)
    (temp : Option Bytes) (reply : ModelReply) : Prop :=
  (reply.code = 200 ∨ reply.code = 206) ∧ reply.thrown active = none ∧
    isShort (reply.kept temp ++ reply.written active).length (totalLength reply temp) = false ∧
    renames = true ∧ verifyModel digest info (some (reply.kept temp ++ reply.written active)) = true

theorem fetch_of_passes (h : server (files.temp.map List.length) = .ok reply)
    (hp : Passes digest info renames active files.temp reply) :
    reportsComplete (fetch digest info server renames active files).1 = true ∧
      (fetch digest info server renames active files).2 =
        ⟨none, some (reply.kept files.temp ++ reply.written active)⟩ := by
  obtain ⟨hcode, hthrown, hshort, hrenames, hverify⟩ := hp
  have hcode' : ¬ (reply.code ≠ 200 ∧ reply.code ≠ 206) := by omega
  unfold ModelReply.thrown at hthrown
  unfold ModelReply.written at hshort hverify ⊢
  have hlen : ∀ bytes : Bytes, fileLength (some bytes) = bytes.length := fun _ => rfl
  simp only [fetch, h, if_neg hcode', hthrown, finish, hlen, hshort, hrenames, hverify]
  exact ⟨rfl, rfl⟩

theorem passes_of_fetch
    (h : reportsComplete (fetch digest info server renames active files).1 = true) :
    ∃ reply, server (files.temp.map List.length) = .ok reply ∧
      Passes digest info renames active files.temp reply := by
  unfold fetch at h
  split at h
  · cases h
  next reply hreply =>
    refine ⟨reply, hreply, ?_⟩
    split at h
    · cases h
    next hcode =>
      dsimp only at h
      split at h
      · cases h
      next hthrown =>
        unfold finish at h
        split at h
        · cases h
        next hshort =>
          split at h
          · cases h
          next hrenames =>
            dsimp only at h
            split at h
            next hverify =>
              exact ⟨by omega, hthrown, Bool.eq_false_iff.mpr hshort, by simpa using hrenames,
                hverify⟩
            · cases h

/-- A run of `downloadModel` leaves nothing out: a file taken as it is found is the remote one, and
a reply that passes the checks brings all of it. -/
def Complete (remote : Bytes) (digest : Bytes → Option Text) (info : ModelInfo)
    (server : ModelServer) (renames : Bool) (cancelled : Option Cancellation)
    (files : ModelFiles) : Prop :=
  if hasOutput info files && verifyModel digest info files.output then files.output = some remote
  else cancelled ≠ some .entering → ∀ reply, server (files.temp.map List.length) = .ok reply →
    Passes digest info renames (Cancellation.active cancelled) files.temp reply →
    Arrives remote (reply.kept files.temp) (reply.written (Cancellation.active cancelled))

theorem fetch_complete_iff (honest : Honest remote server) :
    (reportsComplete (fetch digest info server renames active files).1 = true →
      (fetch digest info server renames active files).2.output = some remote) ↔
    ∀ reply, server (files.temp.map List.length) = .ok reply →
      Passes digest info renames active files.temp reply →
      Arrives remote (reply.kept files.temp) (reply.written active) := by
  have hrange := getD_map_length files.temp
  constructor
  · intro h reply hreply hp
    obtain ⟨hdone, hfiles⟩ := fetch_of_passes hreply hp
    have houtput := h hdone
    rw [hfiles] at houtput
    exact (kept_append_eq_iff active (honest _ _ hreply) hrange).mp (Option.some.inj houtput)
  · intro h hdone
    obtain ⟨reply, hreply, hp⟩ := passes_of_fetch hdone
    rw [(fetch_of_passes hreply hp).2,
      (kept_append_eq_iff active (honest _ _ hreply) hrange).mpr (h reply hreply hp)]

theorem downloadModel_complete_iff (honest : Honest remote server)
    (cancelled : Option Cancellation) :
    (reportsComplete (downloadModel digest info server renames cancelled files).1 = true →
      (downloadModel digest info server renames cancelled files).2.output = some remote) ↔
    Complete remote digest info server renames cancelled files := by
  unfold downloadModel Complete
  split
  · exact ⟨fun h => h rfl, fun h _ => h⟩
  · have htemp : (if hasOutput info files then { files with output := none } else files).temp =
        files.temp := by split <;> rfl
    dsimp only
    split
    next hentering => exact ⟨fun _ hne => absurd hentering hne, fun _ h => nomatch h⟩
    next hentering =>
      rw [fetch_complete_iff honest, htemp]
      exact ⟨fun h _ => h, fun h => h hentering⟩

end ModelDownloader

namespace OfflineModelPicker

variable {server : ModelServer} {renames : Bool} {resumeFrom : Nat} {files : ModelFiles}
  {reply : ModelReply}

/-- The checks that `downloadOnce` makes of a reply. -/
def Passes (renames : Bool) (temp : Option Bytes) (reply : ModelReply) : Prop :=
  reply.isSuccessful = true ∧ reply.hasBody = true ∧ reply.thrown none = none ∧
    (∃ total, actualTotal reply (fileLength temp) = .ok total ∧
      isShort (reply.kept temp ++ reply.written none).length total = false) ∧ renames = true

/-- The range that an attempt asks for. -/
def resumeRange (temp : Option Bytes) : Option Nat :=
  if 0 < fileLength temp then some (fileLength temp) else none

theorem resumeRange_getD (temp : Option Bytes) : (resumeRange temp).getD 0 = fileLength temp := by
  unfold resumeRange
  split
  · rfl
  next h => exact (Nat.eq_zero_of_not_pos h).symm

theorem downloadOnce_of_passes (h : server (resumeRange files.temp) = .ok reply)
    (hp : Passes renames files.temp reply) :
    downloadOnce server renames (fileLength files.temp) files =
      ⟨.ok (), true, ⟨none, some (reply.kept files.temp ++ reply.written none)⟩⟩ := by
  obtain ⟨hcode, hbody, hthrown, ⟨total, htotal, hshort⟩, hrenames⟩ := hp
  unfold resumeRange at h
  unfold ModelReply.thrown at hthrown
  unfold ModelReply.written at hshort ⊢
  simp only [downloadOnce, h, hcode, hbody, htotal, hthrown, hshort, hrenames]
  rfl

/-- An attempt returns normally exactly after a rename, and then its reply has passed the checks. -/
theorem downloadOnce_cases (server : ModelServer) (renames : Bool) (files : ModelFiles) :
    let attempt := downloadOnce server renames (fileLength files.temp) files
    (attempt.outcome = .ok () ∧ attempt.renamed = true ∧ ∃ reply,
      server (resumeRange files.temp) = .ok reply ∧ Passes renames files.temp reply) ∨
    ((∃ message, attempt.outcome = .error message) ∧ attempt.renamed = false ∧
      attempt.files.output = files.output) := by
  dsimp only
  unfold downloadOnce
  split
  · exact .inr ⟨⟨_, rfl⟩, rfl, rfl⟩
  next reply hreply =>
    split
    · exact .inr ⟨⟨_, rfl⟩, rfl, rfl⟩
    next hcode =>
      split
      · exact .inr ⟨⟨_, rfl⟩, rfl, rfl⟩
      next hbody =>
        split
        · exact .inr ⟨⟨_, rfl⟩, rfl, rfl⟩
        next total htotal =>
          dsimp only
          split
          · exact .inr ⟨⟨_, rfl⟩, rfl, rfl⟩
          next hthrown =>
            split
            · exact .inr ⟨⟨_, rfl⟩, rfl, rfl⟩
            next hshort =>
              split
              · exact .inr ⟨⟨_, rfl⟩, rfl, rfl⟩
              next hrenames =>
                have hsuccess : reply.isSuccessful = true := by
                  by_contra hno
                  have h206 : reply.code = 206 := by
                      by_contra hne
                      exact hcode (by simp [hno, hne])
                  exact hno (by simp [ModelReply.isSuccessful, h206])
                exact .inl ⟨rfl, rfl, reply, hreply, hsuccess, by simpa using hbody, hthrown,
                  ⟨total, htotal, Bool.eq_false_iff.mpr hshort⟩, by simpa using hrenames⟩

theorem downloadOnce_complete_iff (honest : Honest remote server) :
    ((downloadOnce server renames (fileLength files.temp) files).outcome = .ok () →
      (downloadOnce server renames (fileLength files.temp) files).files.output = some remote) ↔
    ∀ reply, server (resumeRange files.temp) = .ok reply → Passes renames files.temp reply →
      Arrives remote (reply.kept files.temp) (reply.written none) := by
  have hrange := resumeRange_getD files.temp
  constructor
  · intro h reply hreply hp
    rw [downloadOnce_of_passes hreply hp] at h
    exact (kept_append_eq_iff none (honest _ _ hreply) hrange).mp (Option.some.inj (h rfl))
  · intro h hdone
    obtain ⟨-, -, reply, hreply, hp⟩ | ⟨⟨message, hmessage⟩, -⟩ :=
      downloadOnce_cases server renames files
    · rw [downloadOnce_of_passes hreply hp,
        (kept_append_eq_iff none (honest _ _ hreply) hrange).mpr (h reply hreply hp)]
    · rw [hmessage] at hdone
      cases hdone

end OfflineModelPicker

namespace HuggingFaceClient

variable {server : ModelServer} {renames : Bool} {files : ModelFiles} {reply : ModelReply}

/-- The checks that the flow makes of a reply. -/
def Passes (renames : Bool) (reply : ModelReply) : Prop :=
  reply.isSuccessful = true ∧ reply.hasBody = true ∧ reply.broken = none ∧
    reply.body.flatten ≠ [] ∧
    (0 < reply.contentLength → isShort reply.body.flatten.length reply.contentLength = false) ∧
    renames = true

/-- All that is emitted before the last event. -/
def opened (reply : ModelReply) : List DownloadProgress :=
  .started reply.contentLength :: progressEvents reply.contentLength 0 (-1) reply.body

theorem completed_notMem_progressEvents (totalBytes : Int) (body : List Bytes)
    (downloadedBytes lastProgress : Int) :
    .completed ∉ progressEvents totalBytes downloadedBytes lastProgress body := by
  induction body generalizing downloadedBytes lastProgress with
  | nil => simp [progressEvents]
  | cons piece rest ih =>
    simp only [progressEvents]
    split
    · simpa using ih _ _
    · exact ih _ _

theorem completed_notMem_opened (reply : ModelReply) : .completed ∉ opened reply := by
  simp [opened, completed_notMem_progressEvents]

theorem downloadModel_of_passes (h : server none = .ok reply) (hp : Passes renames reply) :
    downloadModel server renames files =
      (opened reply ++ [.completed], ⟨none, some reply.body.flatten⟩) := by
  obtain ⟨hcode, hbody, hbroken, hempty, hshort, hrenames⟩ := hp
  have hempty' : reply.body.flatten.isEmpty = false := by simpa using hempty
  have hshort' : (decide (0 < reply.contentLength) &&
      isShort reply.body.flatten.length reply.contentLength) = false := by
    by_cases hpos : 0 < reply.contentLength
    · rw [hshort hpos, Bool.and_false]
    · simp [hpos]
  simp only [downloadModel, h, hcode, hbody, readLoop_none, hbroken, hempty', hshort', hrenames]
  rfl

/-- Where the checks are not passed, nothing completes. -/
theorem passes_of_completed (h : .completed ∈ (downloadModel server renames files).1) :
    ∃ reply, server none = .ok reply ∧ Passes renames reply := by
  unfold downloadModel at h
  dsimp only at h
  split at h
  · simp at h
  next reply hreply =>
    refine ⟨reply, hreply, ?_⟩
    have hopened : ∀ message, .completed ∉ opened reply ++ [.error message] := fun message => by
      simp [completed_notMem_opened]
    split at h
    · simp at h
    next hcode =>
      split at h
      · simp at h
      next hbody =>
        rw [readLoop_none] at h
        dsimp only at h
        split at h
        · exact absurd h (hopened _)
        next hbroken =>
          split at h
          · exact absurd h (hopened _)
          next hempty =>
            split at h
            · exact absurd h (hopened _)
            next hshort =>
              split at h
              · exact absurd h (hopened _)
              next hrenames =>
                exact ⟨by simpa using hcode, by simpa using hbody, hbroken, by simpa using hempty,
                  fun hpos => by simpa [hpos] using hshort, by simpa using hrenames⟩

/-- No emission of the flow is refused. -/
def AllEmitted (emits : Option Nat) (reply : ModelReply) : Prop :=
  ∀ k, emits = some k → (opened reply).length + 1 ≤ k

theorem collect_of_passes {emits : Option Nat} (h : server none = .ok reply)
    (hp : Passes renames reply) (he : AllEmitted emits reply) :
    collect server renames emits files =
      (opened reply ++ [.completed], ⟨none, some reply.body.flatten⟩) := by
  unfold collect
  rw [downloadModel_of_passes h hp]
  cases emits with
  | none => rfl
  | some k =>
    have hk : (opened reply ++ [DownloadProgress.completed]).length ≤ k := by
      simpa using he k rfl
    simp only [if_pos hk]

theorem passes_of_collect {emits : Option Nat}
    (h : .completed ∈ (collect server renames emits files).1) :
    ∃ reply, server none = .ok reply ∧ Passes renames reply ∧ AllEmitted emits reply := by
  have hall : .completed ∈ (downloadModel server renames files).1 := by
    unfold collect at h
    dsimp only at h
    split at h
    · exact h
    · split at h
      · exact h
      · exact List.mem_of_mem_take h
  obtain ⟨reply, hreply, hp⟩ := passes_of_completed hall
  refine ⟨reply, hreply, hp, ?_⟩
  rintro k rfl
  by_contra hk
  unfold collect at h
  rw [downloadModel_of_passes hreply hp] at h
  have hlen : ¬ (opened reply ++ [DownloadProgress.completed]).length ≤ k := by
    simpa using hk
  simp only [if_neg hlen] at h
  rw [List.take_append_of_le_length (by omega)] at h
  exact completed_notMem_opened reply (List.mem_of_mem_take h)

theorem collect_complete_iff (honest : Honest remote server) (emits : Option Nat) :
    (.completed ∈ (collect server renames emits files).1 →
      (collect server renames emits files).2.output = some remote) ↔
    ∀ reply, server none = .ok reply → Passes renames reply → AllEmitted emits reply →
      reply.body.flatten.length = remote.length := by
  constructor
  · intro h reply hreply hp he
    rw [collect_of_passes hreply hp he] at h
    exact congrArg List.length (Option.some.inj (h (by simp)))
  · intro h hdone
    obtain ⟨reply, hreply, hp, he⟩ := passes_of_collect hdone
    have hpart : reply.body.flatten <+: remote := by
      simpa [ModelReply.IsPartOf] using honest _ _ hreply
    rw [collect_of_passes hreply hp he, hpart.eq_of_length (h reply hreply hp he)]

end HuggingFaceClient

namespace Downloads

open ModelDownloader OfflineModelPicker HuggingFaceClient

/-- Each of the three downloaders that reports success has the remote file at its destination exactly
if what passes its checks is all of that file. -/
theorem complete_iff {server : ModelServer} (honest : Honest remote server)
    (digest : Bytes → Option Text) (info : ModelInfo) (renames : Bool)
    (cancelled : Option Cancellation) (emits : Option Nat) (files : ModelFiles) :
    ((reportsComplete (ModelDownloader.downloadModel digest info server renames cancelled
        files).1 = true →
      (ModelDownloader.downloadModel digest info server renames cancelled files).2.output =
        some remote) ↔
      Complete remote digest info server renames cancelled files) ∧
    (((downloadOnce server renames (fileLength files.temp) files).outcome = .ok () →
      (downloadOnce server renames (fileLength files.temp) files).files.output = some remote) ↔
      ∀ reply, server (resumeRange files.temp) = .ok reply →
        OfflineModelPicker.Passes renames files.temp reply →
        Arrives remote (reply.kept files.temp) (reply.written none)) ∧
    ((.completed ∈ (collect server renames emits files).1 →
      (collect server renames emits files).2.output = some remote) ↔
      ∀ reply, server none = .ok reply → HuggingFaceClient.Passes renames reply →
        AllEmitted emits reply → reply.body.flatten.length = remote.length) :=
  ⟨downloadModel_complete_iff honest cancelled, downloadOnce_complete_iff honest,
    collect_complete_iff honest emits⟩

/-- The whole of a two-byte file. -/
def wholeFile : ModelServer := fun _ => .ok { code := 200, contentLength := 2, body := [[1], [2]] }

theorem complete_whole_file :
    (reportsComplete (ModelDownloader.downloadModel (fun _ => none) ⟨[], 2, none⟩ wholeFile true none
        {}).1 = true →
      (ModelDownloader.downloadModel (fun _ => none) ⟨[], 2, none⟩ wholeFile true none {}).2.output =
        some [1, 2]) ∧
    ((downloadOnce wholeFile true 0 {}).outcome = .ok () →
      (downloadOnce wholeFile true 0 {}).files.output = some [1, 2]) ∧
    (.completed ∈ (collect wholeFile true none {}).1 →
      (collect wholeFile true none {}).2.output = some [1, 2]) := by
  have honest : Honest [1, 2] wholeFile := by
    rintro range reply ⟨⟩
    exact List.prefix_rfl
  have h := complete_iff honest (fun _ => none) ⟨[], 2, none⟩ true none none {}
  refine ⟨h.1.mpr ?_, h.2.1.mpr ?_, h.2.2.mpr ?_⟩
  · rintro - reply ⟨⟩ -
    exact ⟨List.nil_prefix, rfl⟩
  · rintro reply ⟨⟩ -
    exact ⟨List.nil_prefix, rfl⟩
  · rintro reply ⟨⟩ - -
    rfl

/-- The first byte of that file, and then the end of a body of no announced length. -/
def endsEarly : ModelServer := fun _ => .ok { code := 200, body := [[1]] }

/-- A hundred bytes, as announced, of which the last comes in a piece of its own. -/
def lastApart : ModelServer := fun _ =>
  .ok { code := 200, contentLength := 100, body := [List.replicate 99 7, [7]] }

/-- All three report half of the file as complete, and `ModelDownloader` the 99 bytes it has when it
is cancelled. -/
theorem early_end_completes :
    Honest [1, 2] endsEarly ∧
    reportsComplete (ModelDownloader.downloadModel (fun _ => none) ⟨[], 2, none⟩ endsEarly true none
      {}).1 = true ∧
    (ModelDownloader.downloadModel (fun _ => none) ⟨[], 2, none⟩ endsEarly true none {}).2.output =
      some [1] ∧
    (downloadOnce endsEarly true 0 {}).outcome = .ok () ∧
    (downloadOnce endsEarly true 0 {}).files.output = some [1] ∧
    .completed ∈ (collect endsEarly true none {}).1 ∧
    (collect endsEarly true none {}).2.output = some [1] ∧
    Honest (List.replicate 100 7) lastApart ∧
    reportsComplete (ModelDownloader.downloadModel (fun _ => none) ⟨[], 100, none⟩ lastApart true
      (some (.reading 1)) {}).1 = true ∧
    (ModelDownloader.downloadModel (fun _ => none) ⟨[], 100, none⟩ lastApart true
      (some (.reading 1)) {}).2.output = some (List.replicate 99 7) := by
  refine ⟨?_, by decide, by decide, by decide, by decide, by decide, by decide, ?_, by decide,
    by decide⟩
  · rintro range reply ⟨⟩
    exact ⟨[2], rfl⟩
  · rintro range reply ⟨⟩
    exact List.prefix_rfl

end Downloads

end HeyNilo
