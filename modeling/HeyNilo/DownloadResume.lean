import HeyNilo.DownloadRetries

namespace HeyNilo

variable {remote : Bytes} {ranges : Bool}

theorem addLong_le {m n : Int} (h : -2 ^ 63 ≤ m + n) : addLong m n ≤ m + n := by
  unfold addLong
  by_cases hlt : m + n < 2 ^ 63
  · rw [Int.bmod_eq_of_le (by omega) (by omega)]
  · have hbound := Int.bmod_lt (x := m + n) (m := 2 ^ 64) (by decide)
    omega

theorem isShort_of_le {length : Nat} {total : Int} (h : total ≤ length) :
    isShort length total = false :=
  Binary64.below_of_le (by decide) h

/-- The reply carries these bytes to their end, under their length or under none. -/
structure ModelReply.Carries (reply : ModelReply) (bytes : Bytes) : Prop where
  hasBody : reply.hasBody = true
  unbroken : reply.broken = none
  body : reply.body.flatten = bytes
  announced : reply.contentLength = -1 ∨ reply.contentLength = bytes.length

/-- An uninterrupted server of the file, which implements ranges or ignores them. -/
structure Serves (ranges : Bool) (remote : Bytes) (server : ModelServer) : Prop where
  whole : ∀ range, range = none ∨ ranges = false →
    ∃ reply, server range = .ok reply ∧ reply.code = 200 ∧ reply.Carries remote
  rest : ranges = true → ∀ k < remote.length,
    ∃ reply, server (some k) = .ok reply ∧ reply.code = 206 ∧ reply.Carries (remote.drop k) ∧
      ∀ digits, reply.contentRange.bind rangeTotal = some digits →
        toLong digits = some (remote.length : Int)
  past : ranges = true → ∀ k, remote.length ≤ k →
    ∃ reply, server (some k) = .ok reply ∧ reply.code = 416

/-- A temporary file of an earlier run. -/
def ModelFiles.Resumable (files : ModelFiles) (remote : Bytes) : Prop :=
  ∀ temp, files.temp = some temp → temp <+: remote

/-- The server can serve a request from the end of the temporary file. -/
def Satisfiable (ranges : Bool) (remote : Bytes) (range : Option Nat) : Prop :=
  ranges = true → ∀ k, range = some k → k < remote.length

namespace ModelReply

theorem Carries.written {reply : ModelReply} {bytes : Bytes} (h : reply.Carries bytes) :
    reply.written none = bytes := by
  unfold ModelReply.written
  rw [readLoop_none]
  exact h.body

theorem Carries.thrown {reply : ModelReply} {bytes : Bytes} (h : reply.Carries bytes) :
    reply.thrown none = none := by
  unfold ModelReply.thrown
  rw [readLoop_none]
  exact h.unbroken

theorem Carries.contentLength_le {reply : ModelReply} {bytes : Bytes} (h : reply.Carries bytes) :
    -1 ≤ reply.contentLength ∧ reply.contentLength ≤ bytes.length := by
  rcases h.announced with h | h <;> omega

end ModelReply

/-- A satisfiable request is answered by the whole file or by the rest behind the bytes kept. -/
theorem Serves.reply {server : ModelServer} (hs : Serves ranges remote server) {range : Option Nat}
    (hr : Satisfiable ranges remote range) :
    ∃ reply, server range = .ok reply ∧
      (reply.code = 200 ∧ reply.Carries remote ∨
        ∃ k, range = some k ∧ k < remote.length ∧ reply.code = 206 ∧
          reply.Carries (remote.drop k) ∧
          ∀ digits, reply.contentRange.bind rangeTotal = some digits →
            toLong digits = some (remote.length : Int)) := by
  by_cases h : range = none ∨ ranges = false
  · obtain ⟨reply, hreply, hcode, hcarries⟩ := hs.whole range h
    exact ⟨reply, hreply, .inl ⟨hcode, hcarries⟩⟩
  · obtain ⟨k, rfl⟩ := Option.ne_none_iff_exists'.mp fun hnone => h (.inl hnone)
    have hranges : ranges = true := by simpa using fun hno => h (.inr hno)
    obtain ⟨reply, hreply, hcode, hcarries, htotal⟩ := hs.rest hranges k (hr hranges k rfl)
    exact ⟨reply, hreply, .inr ⟨k, rfl, hr hranges k rfl, hcode, hcarries, htotal⟩⟩

namespace ModelDownloader

variable {digest : Bytes → Option Text} {info : ModelInfo} {server : ModelServer}
  {files : ModelFiles} {reply : ModelReply}

/-- A file that is complete is moved and, if its checksum fails, deleted. -/
theorem fetch_of_complete (h : server (files.temp.map List.length) = .ok reply)
    (hcode : reply.code = 200 ∨ reply.code = 206) (hthrown : reply.thrown none = none)
    (hshort : isShort (reply.kept files.temp ++ reply.written none).length
      (totalLength reply files.temp) = false) :
    (fetch digest info server true none files).2 =
      if verifyModel digest info (some (reply.kept files.temp ++ reply.written none)) then
        ⟨none, some (reply.kept files.temp ++ reply.written none)⟩
      else ⟨none, none⟩ := by
  have hcode' : ¬ (reply.code ≠ 200 ∧ reply.code ≠ 206) := by omega
  unfold ModelReply.thrown at hthrown
  unfold ModelReply.written at hshort ⊢
  have hlen : ∀ bytes : Bytes, fileLength (some bytes) = bytes.length := fun _ => rfl
  simp only [fetch, h, if_neg hcode', hthrown, finish, hlen, hshort, Bool.not_true,
    Bool.false_eq_true, ↓reduceIte]
  split <;> rfl

theorem fetch_of_satisfiable (hs : Serves ranges remote server) (hp : files.Resumable remote)
    (hr : Satisfiable ranges remote (files.temp.map List.length)) :
    (fetch digest info server true none files).2 =
      if verifyModel digest info (some remote) then ⟨none, some remote⟩ else ⟨none, none⟩ := by
  obtain ⟨reply, hreply, ⟨hcode, hcarries⟩ | ⟨k, hk, hlt, hcode, hcarries, -⟩⟩ := hs.reply hr
  · have hkept : reply.kept files.temp = [] := by simp [ModelReply.kept, hcode]
    have htotal : totalLength reply files.temp = reply.contentLength := by
      simp [totalLength, hcode]
    have hall : reply.kept files.temp ++ reply.written none = remote := by
      rw [hkept, hcarries.written, List.nil_append]
    have hshort : isShort remote.length (totalLength reply files.temp) = false :=
      isShort_of_le (htotal ▸ hcarries.contentLength_le.2)
    rw [← hall] at hshort
    rw [fetch_of_complete hreply (.inl hcode) hcarries.thrown hshort, hall]
  · obtain ⟨temp, htemp, rfl⟩ := Option.map_eq_some_iff.mp hk
    have hkept : reply.kept files.temp = temp := by simp [ModelReply.kept, hcode, htemp]
    have htotal : totalLength reply files.temp = addLong temp.length reply.contentLength := by
      simp [totalLength, hcode, htemp, fileLength]
    have hall : reply.kept files.temp ++ reply.written none = remote := by
      rw [hkept, hcarries.written]
      exact List.prefix_iff_eq_append.mp (hp temp htemp)
    have hshort : isShort remote.length (totalLength reply files.temp) = false := by
      have hlen := hcarries.contentLength_le
      rw [List.length_drop] at hlen
      have hsum := addLong_le (m := temp.length) (n := reply.contentLength) (by omega)
      refine isShort_of_le ?_
      rw [htotal]
      omega
    rw [← hall] at hshort
    rw [fetch_of_complete hreply (.inr hcode) hcarries.thrown hshort, hall]

/-- A request that cannot be satisfied leaves the temporary file in place. -/
theorem fetch_of_not_satisfiable (hs : Serves ranges remote server)
    (hr : ¬ Satisfiable ranges remote (files.temp.map List.length)) :
    (fetch digest info server true none files).2 = files ∧ files.temp ≠ none := by
  unfold Satisfiable at hr
  push Not at hr
  obtain ⟨hranges, k, hk, hle⟩ := hr
  obtain ⟨reply, hreply, hcode⟩ := hs.past hranges k hle
  constructor
  · simp [fetch, hk, hreply, hcode]
  · intro hnone
    rw [hnone] at hk
    cases hk

/-- A resumed run ends with the remote file and no temporary one: it finds the file so, or the server
can serve the rest and the checksum is that of the remote file. -/
def Converges (ranges : Bool) (remote : Bytes) (digest : Bytes → Option Text) (info : ModelInfo)
    (files : ModelFiles) : Prop :=
  if hasOutput info files && verifyModel digest info files.output then files = ⟨none, some remote⟩
  else Satisfiable ranges remote (files.temp.map List.length) ∧
    verifyModel digest info (some remote) = true

theorem startDownload_converges_iff (hs : Serves ranges remote server)
    (hp : files.Resumable remote) :
    (startDownload digest info server true files).2 = ⟨none, some remote⟩ ↔
      Converges ranges remote digest info files := by
  have hfiles : (startDownload digest info server true files).2 =
      (downloadModel digest info server true none files).2 := by
    unfold startDownload
    split
    next h => rw [h]
    next h => rw [h]
  rw [hfiles]
  unfold downloadModel Converges
  split
  · exact Iff.rfl
  · have htemp : (if hasOutput info files then { files with output := none } else files).temp =
        files.temp := by split <;> rfl
    have hp' : ModelFiles.Resumable
        (if hasOutput info files then { files with output := none } else files) remote := by
      unfold ModelFiles.Resumable
      rwa [htemp]
    dsimp only
    generalize (if hasOutput info files then { files with output := none } else files) = start
      at htemp hp'
    rw [← htemp]
    by_cases hr : Satisfiable ranges remote (start.temp.map List.length)
    · have hfetch : (fetch digest info server true none start).2 = _ :=
        fetch_of_satisfiable hs hp' hr
      cases hverify : verifyModel digest info (some remote) <;> simp_all [Cancellation.active]
    · obtain ⟨hsame, hleft⟩ : (fetch digest info server true none start).2 = start ∧
        start.temp ≠ none := fetch_of_not_satisfiable hs hr
      constructor
      · intro h
        rw [if_neg (by simp), show Cancellation.active none = none from rfl, hsame] at h
        exact absurd (congrArg ModelFiles.temp h) hleft
      · exact fun h => absurd h.1 hr

end ModelDownloader

namespace OfflineModelPicker

variable {server : Nat → ModelServer} {files : ModelFiles}

theorem exists_of_resumeRange {temp : Option Bytes} {k : Nat} (h : resumeRange temp = some k) :
    ∃ bytes, temp = some bytes ∧ bytes.length = k := by
  unfold resumeRange at h
  split at h
  next hpos =>
    cases temp with
    | none => cases hpos
    | some bytes => exact ⟨bytes, rfl, Option.some.inj h⟩
  · cases h

/-- The length that the attempt expects is at most that of the file. -/
theorem actualTotal_le {reply : ModelReply} {k : Nat} (hcode : reply.code = 206)
    (hk : k < remote.length) (hcarries : reply.Carries (remote.drop k))
    (hdigits : ∀ digits, reply.contentRange.bind rangeTotal = some digits →
      toLong digits = some (remote.length : Int)) :
    ∃ total, actualTotal reply k = .ok total ∧ total ≤ remote.length := by
  unfold actualTotal
  rw [if_pos hcode]
  cases hrange : reply.contentRange.bind rangeTotal with
  | none =>
    have hbound := hcarries.contentLength_le
    rw [List.length_drop] at hbound
    have hsum := addLong_le (m := k) (n := reply.contentLength) (by omega)
    exact ⟨_, rfl, by omega⟩
  | some digits =>
    refine ⟨remote.length, ?_, le_refl _⟩
    dsimp only
    rw [hdigits digits hrange]

theorem passes_of_satisfiable {server : ModelServer} (hs : Serves ranges remote server)
    (hp : files.Resumable remote) (hr : Satisfiable ranges remote (resumeRange files.temp)) :
    ∃ reply, server (resumeRange files.temp) = .ok reply ∧ Passes true files.temp reply ∧
      reply.kept files.temp ++ reply.written none = remote := by
  obtain ⟨reply, hreply, ⟨hcode, hcarries⟩ | ⟨k, hk, hlt, hcode, hcarries, hdigits⟩⟩ := hs.reply hr
  · have hall : reply.kept files.temp ++ reply.written none = remote := by
      rw [hcarries.written]
      simp [ModelReply.kept, hcode]
    have htotal : actualTotal reply (fileLength files.temp) = .ok reply.contentLength := by
      simp [actualTotal, hcode]
    refine ⟨reply, hreply, ⟨by simp [ModelReply.isSuccessful, hcode], hcarries.hasBody,
      hcarries.thrown, ⟨_, htotal, ?_⟩, rfl⟩, hall⟩
    rw [hall]
    exact isShort_of_le hcarries.contentLength_le.2
  · obtain ⟨temp, htemp, rfl⟩ := exists_of_resumeRange hk
    have hall : reply.kept files.temp ++ reply.written none = remote := by
      rw [hcarries.written]
      simpa [ModelReply.kept, hcode, htemp] using List.prefix_iff_eq_append.mp (hp temp htemp)
    obtain ⟨total, htotal, hle⟩ := actualTotal_le hcode hlt hcarries hdigits
    have hlen : fileLength files.temp = temp.length := by rw [htemp]; rfl
    rw [← hlen] at htotal
    refine ⟨reply, hreply, ⟨by simp [ModelReply.isSuccessful, hcode], hcarries.hasBody,
      hcarries.thrown, ⟨total, htotal, ?_⟩, rfl⟩, hall⟩
    rw [hall]
    exact isShort_of_le hle

/-- A request that cannot be satisfied leaves the files as they are. -/
theorem downloadOnce_of_not_satisfiable {server : ModelServer} (hs : Serves ranges remote server)
    (hr : ¬ Satisfiable ranges remote (resumeRange files.temp)) :
    (downloadOnce server true (fileLength files.temp) files).succeeded = false ∧
      (downloadOnce server true (fileLength files.temp) files).files = files := by
  unfold Satisfiable at hr
  push Not at hr
  obtain ⟨hranges, k, hk, hle⟩ := hr
  obtain ⟨reply, hreply, hcode⟩ := hs.past hranges k hle
  unfold resumeRange at hk
  simp [downloadOnce, hk, hreply, hcode, ModelReply.isSuccessful, Attempt.succeeded]

/-- One more run of the attempts brings the rest at once, or is refused at every one of them. -/
theorem downloadWithRetry_converges_iff (hs : ∀ i, Serves ranges remote (server i))
    (hp : files.Resumable remote) :
    (downloadWithRetry server (fun _ => true) files).2 = ⟨none, some remote⟩ ↔
      Satisfiable ranges remote (resumeRange files.temp) := by
  constructor
  · intro h
    by_contra hr
    have hfails := RetryLoop.run_fails (tryOnce server fun _ => true) Attempt.succeeded
      (I := fun s => s = files)
      (fun n s hs' => by
        subst hs'
        exact downloadOnce_of_not_satisfiable (hs n) hr) maxAttempts 1 rfl
    have hsame : (downloadWithRetry server (fun _ => true) files).2 = files := hfails.2
    rw [hsame] at h
    refine hr ?_
    rw [h]
    rintro - k ⟨⟩
  · intro hr
    obtain ⟨reply, hreply, hpasses, hall⟩ := passes_of_satisfiable (hs 1) hp hr
    have honce := downloadOnce_of_passes hreply hpasses
    have hok : Attempt.succeeded (tryOnce server (fun _ => true) 1 files).1 = true := by
      unfold tryOnce
      rw [honce]
      rfl
    have hrun : downloadWithRetry server (fun _ => true) files =
        ([(tryOnce server (fun _ => true) 1 files).1], (tryOnce server (fun _ => true) 1 files).2) :=
      RetryLoop.run_of_ok hok
    rw [hrun]
    unfold tryOnce
    rw [honce, hall]

end OfflineModelPicker

/-- Bytes of the remote file behind kept bytes of it. -/
theorem kept_append_initial {reply : ModelReply} {range : Option Nat} {files : ModelFiles}
    (active : Option Nat) (hpart : reply.IsPartOf remote range)
    (hrange : range.getD 0 = fileLength files.temp) (hp : files.Resumable remote) :
    reply.kept files.temp ++ reply.written active <+: remote := by
  have hwritten := (readLoop_initial reply.broken active reply.body).trans hpart
  unfold ModelReply.kept ModelReply.written
  split
  next hcode =>
    rw [if_pos hcode, hrange] at hwritten
    cases htemp : files.temp with
    | none => simpa [htemp, fileLength] using hwritten
    | some temp =>
      rw [htemp] at hwritten
      have hjoin := (List.prefix_append_right_inj temp).mpr hwritten
      rwa [show fileLength (some temp) = temp.length from rfl,
        List.prefix_iff_eq_append.mp (hp temp htemp)] at hjoin
  next hcode =>
    rw [if_neg hcode] at hwritten
    simpa using hwritten

namespace Downloads

open ModelDownloader OfflineModelPicker

/-- A run of `ModelDownloader`, stopped where it may be, or an attempt of the picker. -/
inductive EarlierRun where
  | downloader (digest : Bytes → Option Text) (info : ModelInfo) (server : ModelServer)
    (renames : Bool) (cancelled : Option Cancellation)
  | picker (server : ModelServer) (renames : Bool)

def EarlierRun.server : EarlierRun → ModelServer
  | .downloader _ _ server _ _ => server
  | .picker server _ => server

def EarlierRun.leave (files : ModelFiles) : EarlierRun → ModelFiles
  | .downloader digest info server renames cancelled =>
    (ModelDownloader.downloadModel digest info server renames cancelled files).2
  | .picker server renames => (downloadOnce server renames (fileLength files.temp) files).files

theorem resumable_of_temp (files : ModelFiles) {bytes : Bytes} (h : bytes <+: remote) :
    ({ files with temp := some bytes } : ModelFiles).Resumable remote := by
  rintro temp ⟨⟩
  exact h

theorem resumable_moved {output : Option Bytes} :
    (⟨none, output⟩ : ModelFiles).Resumable remote := by
  rintro temp ⟨⟩

theorem fetch_resumable {digest : Bytes → Option Text} {info : ModelInfo} {server : ModelServer}
    {renames : Bool} {active : Option Nat} {files : ModelFiles} (honest : Honest remote server)
    (hp : files.Resumable remote) :
    (fetch digest info server renames active files).2.Resumable remote := by
  have hrange := getD_map_length files.temp
  unfold fetch
  split
  · exact hp
  next reply hreply =>
    have hcopied := resumable_of_temp files
      (kept_append_initial active (honest _ _ hreply) hrange hp)
    split
    · exact hp
    · dsimp only
      split
      · exact hcopied
      · unfold finish
        split
        · exact hcopied
        · split
          · exact hcopied
          · dsimp only
            split <;> exact resumable_moved

theorem downloadOnce_resumable {server : ModelServer} {renames : Bool} {files : ModelFiles}
    (honest : Honest remote server) (hp : files.Resumable remote) :
    (downloadOnce server renames (fileLength files.temp) files).files.Resumable remote := by
  have hrange := resumeRange_getD files.temp
  unfold downloadOnce
  split
  · exact hp
  next reply hreply =>
    have hcopied := resumable_of_temp files
      (kept_append_initial none (honest _ _ hreply) hrange hp)
    split
    · exact hp
    · split
      · exact hp
      · split
        · exact hp
        · dsimp only
          split
          · exact hcopied
          · split
            · exact hcopied
            · split
              · exact hcopied
              · exact resumable_moved

theorem leave_resumable {files : ModelFiles} {run : EarlierRun} (honest : Honest remote run.server)
    (hp : files.Resumable remote) : (run.leave files).Resumable remote := by
  cases run with
  | picker server renames => exact downloadOnce_resumable honest hp
  | downloader digest info server renames cancelled =>
    have hstart : ModelFiles.Resumable
        (if hasOutput info files then { files with output := none } else files) remote := by
      split <;> exact hp
    simp only [EarlierRun.leave, ModelDownloader.downloadModel]
    split
    · exact hp
    · split
      · exact hstart
      · exact fetch_resumable honest hstart

/-- However many runs have been interrupted, the temporary file begins the remote one. -/
theorem resumable_of_runs {files : ModelFiles} {runs : List EarlierRun}
    (honest : ∀ run ∈ runs, Honest remote run.server) (hp : files.Resumable remote) :
    (runs.foldl EarlierRun.leave files).Resumable remote := by
  induction runs generalizing files with
  | nil => exact hp
  | cons run runs ih =>
    rw [List.forall_mem_cons] at honest
    exact ih honest.2 (leave_resumable honest.1 hp)

/-- Both downloaders resume from a part of the file to the whole exactly if their request can be
satisfied; `ModelDownloader` also if it finds the file, and it needs the right checksum. -/
theorem resume_converges_iff {single : ModelServer} {server : Nat → ModelServer}
    {files : ModelFiles} (hsingle : Serves ranges remote single)
    (hserver : ∀ i, Serves ranges remote (server i)) (hp : files.Resumable remote)
    (digest : Bytes → Option Text) (info : ModelInfo) :
    ((ModelDownloader.startDownload digest info single true files).2 = ⟨none, some remote⟩ ↔
      Converges ranges remote digest info files) ∧
    ((downloadWithRetry server (fun _ => true) files).2 = ⟨none, some remote⟩ ↔
      Satisfiable ranges remote (resumeRange files.temp)) :=
  ⟨startDownload_converges_iff hsingle hp, downloadWithRetry_converges_iff hserver hp⟩

/-- A server of a two-byte file that implements ranges. -/
def twoBytes : ModelServer
  | none => .ok { code := 200, contentLength := 2, body := [[1, 2]] }
  | some 0 => .ok
    { code := 206, contentLength := 2, contentRange := some "bytes 0-1/2".toList, body := [[1, 2]] }
  | some 1 => .ok
    { code := 206, contentLength := 1, contentRange := some "bytes 1-1/2".toList, body := [[2]] }
  | some _ => .ok { code := 416, contentRange := some "bytes */2".toList }

theorem twoBytes_serves : Serves true [1, 2] twoBytes where
  whole range h := by
    obtain rfl : range = none := by simpa using h
    exact ⟨_, rfl, rfl, rfl, rfl, rfl, .inr rfl⟩
  rest _ k hk := by
    match k, hk with
    | 0, _ =>
      refine ⟨_, rfl, rfl, ⟨rfl, rfl, rfl, .inr rfl⟩, ?_⟩
      rintro digits hdigits
      obtain rfl : "2".toList = digits := Option.some.inj hdigits
      rfl
    | 1, _ =>
      refine ⟨_, rfl, rfl, ⟨rfl, rfl, rfl, .inr rfl⟩, ?_⟩
      rintro digits hdigits
      obtain rfl : "2".toList = digits := Option.some.inj hdigits
      rfl
  past _ k hk := by
    match k, hk with
    | k + 2, _ => exact ⟨_, rfl, rfl⟩

theorem resume_converges_from_half :
    (ModelDownloader.startDownload (fun _ => none) ⟨[], 2, none⟩ twoBytes true
      ⟨some [1], none⟩).2 = ⟨none, some [1, 2]⟩ ∧
    (downloadWithRetry (fun _ => twoBytes) (fun _ => true) ⟨some [1], none⟩).2 =
      ⟨none, some [1, 2]⟩ := by
  have hp : (⟨some [1], none⟩ : ModelFiles).Resumable [1, 2] := by
    rintro temp ⟨⟩
    exact ⟨[2], rfl⟩
  have h := resume_converges_iff twoBytes_serves (fun _ => twoBytes_serves) hp (fun _ => none)
    ⟨[], 2, none⟩
  refine ⟨h.1.mpr ⟨?_, rfl⟩, h.2.mpr ?_⟩
  · rintro - k ⟨⟩
    decide
  · rintro - k ⟨⟩
    decide

/-- A temporary file that has all the bytes is never renamed: every request for more is refused. -/
theorem full_temp_never_finishes :
    Serves true [1, 2] twoBytes ∧ (⟨some [1, 2], none⟩ : ModelFiles).Resumable [1, 2] ∧
    (ModelDownloader.startDownload (fun _ => none) ⟨[], 2, none⟩ twoBytes true
      ⟨some [1, 2], none⟩).2 = ⟨some [1, 2], none⟩ ∧
    (downloadWithRetry (fun _ => twoBytes) (fun _ => true) ⟨some [1, 2], none⟩).2 =
      ⟨some [1, 2], none⟩ := by
  refine ⟨twoBytes_serves, ?_, rfl, ?_⟩
  · rintro temp ⟨⟩
    exact List.prefix_rfl
  · have hfails := RetryLoop.run_fails (tryOnce (fun _ => twoBytes) fun _ => true) Attempt.succeeded
      (I := fun s => s = ⟨some [1, 2], none⟩)
      (fun _ s hs => by
        subst hs
        exact ⟨rfl, rfl⟩) maxAttempts 1 rfl
    exact hfails.2

end Downloads

end HeyNilo
