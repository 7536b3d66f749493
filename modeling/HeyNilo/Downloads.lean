import HeyNilo.Binary64
import HeyNilo.JniText
import HeyNilo.KotlinText
import HeyNilo.RetryLoop

namespace HeyNilo

/-- `String.toLong`, `none` where it throws. -/
def toLong (s : Text) : Option Int :=
  let (negative, digits) :=
    match s with
    | '-' :: rest => (true, rest)
    | '+' :: rest => (false, rest)
    | _ => (false, s)
  if digits.isEmpty || !digits.all Char.isDigit then none
  else
    let magnitude : Int := digits.foldl (fun n d => 10 * n + (d.toNat - '0'.toNat)) 0
    let value := if negative then -magnitude else magnitude
    if -2 ^ 63 ≤ value ∧ value < 2 ^ 63 then some value else none

/-- The sum of two `Long`s. -/
def addLong (m n : Int) : Int := (m + n).bmod (2 ^ 64)

/-- The number at the head of a text and the character after it, both taken off. -/
def afterNumber (close : Char) (s : Text) : Option Text :=
  match s.takeWhile Char.isDigit, s.dropWhile Char.isDigit with
  | _ :: _, c :: rest => if c = close then some rest else none
  | _, _ => none

/-- `bytes \d+-\d+/(\d+)` at the head of a text. -/
def rangeTotalAt (s : Text) : Option Text :=
  if "bytes ".toList.isPrefixOf s then
    ((afterNumber '-' (s.drop 6)).bind (afterNumber '/')).bind fun rest =>
      let total := rest.takeWhile Char.isDigit
      if total.isEmpty then none else some total
  else none

/-- The group of the first match of that pattern in a `Content-Range`. -/
def rangeTotal : Text → Option Text
  | [] => none
  | c :: s =>
    match rangeTotalAt (c :: s) with
    | some total => some total
    | none => rangeTotal s

/-- A reply to a request for a model. `contentLength` is `-1` where none is announced; `body` comes in
the pieces that `read` returns; `broken` is an exception, with its message, in place of the end. -/
structure ModelReply where
  code : Nat
  message : Text := []
  contentLength : Int := -1
  contentRange : Option Text := none
  hasBody : Bool := true
  body : List Bytes := []
  broken : Option (Option Text) := none
deriving DecidableEq, Repr

namespace ModelReply

def isSuccessful (reply : ModelReply) : Bool := 200 ≤ reply.code && reply.code < 300

/-- `FileOutputStream(tempFile, append)` with `append` for a 206. -/
def kept (reply : ModelReply) (temp : Option Bytes) : Bytes :=
  if reply.code = 206 then temp.getD [] else []

end ModelReply

/-- What answers a request, with a `Range` header from the given byte or without one; an exception
of the connection by its message. -/
abbrev ModelServer := Option Nat → Except (Option Text) ModelReply

structure ModelFiles where
  temp : Option Bytes := none
  output : Option Bytes := none
deriving DecidableEq, Repr

/-- `File.length()`. -/
def fileLength (file : Option Bytes) : Nat := (file.getD []).length

/-- `length < total * 0.99`. -/
def isShort (length : Nat) (total : Int) : Bool := Binary64.below 8917127262193582 53 length total

/-- The copying loop. It reads until the end of the body, its exception, or after `active` reads,
where that is given, and returns what it has written with the exception. -/
def readLoop (broken : Option (Option Text)) :
    Option Nat → List Bytes → Bytes × Option (Option Text)
  | some 0, _ => ([], none)
  | _, [] => ([], broken)
  | active, piece :: rest =>
    let (written, thrown) := readLoop broken (active.map (· - 1)) rest
    (piece ++ written, thrown)

/-- Of a `ModelInfo` the fields that a download reads. -/
structure ModelInfo where
  name : Text
  size : Int
  sha256 : Option Text
deriving DecidableEq, Repr

structure DownloadState where
  isDownloading : Bool := false
  progress : Int := 0
  downloadedBytes : Int := 0
  totalBytes : Int := 0
  isComplete : Bool := false
  modelName : Text := []
deriving DecidableEq, Repr

namespace ModelDownloader

/-- Where the job is cancelled: before it enters the I/O context, or after some passed checks of
`isActive` in the loop. -/
inductive Cancellation where
  | entering
  | reading (active : Nat)
deriving DecidableEq, Repr

def Cancellation.active : Option Cancellation → Option Nat
  | some (.reading active) => some active
  | _ => none

variable (digest : Bytes → Option Text) (info : ModelInfo)

/-- `digest` is the SHA-256 in hexadecimal digits, which fold only to ASCII letters, and `none` where
the file cannot be read. -/
def verifyModel (file : Option Bytes) : Bool :=
  match info.sha256 with
  | none => true
  | some expected =>
    match file.bind digest with
    | some hashString => lowercase hashString == lowercase expected
    | none => false

/-- After the loop. -/
def finish (total : Int) (renames : Bool) (files : ModelFiles) :
    Except (Option Text) DownloadState × ModelFiles :=
  if isShort (fileLength files.temp) total then
    (.error (some ("Download incomplete: ".toList ++ (toString (fileLength files.temp)).toList ++
      "/".toList ++ (toString total).toList)), files)
  else if !renames then (.error (some "Failed to move downloaded file".toList), files)
  else
    let moved : ModelFiles := ⟨none, files.temp⟩
    if verifyModel digest info moved.output then
      (.ok {
        isComplete := true
        progress := 100
        downloadedBytes := fileLength moved.output
        totalBytes := fileLength moved.output
        modelName := info.name }, moved)
    else (.error (some "SHA256 verification failed".toList), { moved with output := none })

/-- The length announced for the whole file. -/
def totalLength (reply : ModelReply) (temp : Option Bytes) : Int :=
  if reply.code = 206 ∧ temp.isSome then addLong (fileLength temp) reply.contentLength
  else reply.contentLength

def fetch (server : ModelServer) (renames : Bool) (active : Option Nat) (files : ModelFiles) :
    Except (Option Text) DownloadState × ModelFiles :=
  match server (files.temp.map List.length) with
  | .error message => (.error message, files)
  | .ok reply =>
    if reply.code ≠ 200 ∧ reply.code ≠ 206 then
      (.error (some ("Server returned HTTP ".toList ++ (toString reply.code).toList)), files)
    else
      let (written, thrown) := readLoop reply.broken active reply.body
      let copied := { files with temp := some (reply.kept files.temp ++ written) }
      match thrown with
      | some message => (.error message, copied)
      | none => finish digest info (totalLength reply files.temp) renames copied

/-- The file is there and of the size that the list of models gives. -/
def hasOutput (files : ModelFiles) : Bool :=
  files.output.isSome && (fileLength files.output : Int) == info.size

/-- The state it sets at its end, or its exception. -/
def downloadModel (server : ModelServer) (renames : Bool) (cancelled : Option Cancellation)
    (files : ModelFiles) : Except (Option Text) DownloadState × ModelFiles :=
  if hasOutput info files && verifyModel digest info files.output then
    (.ok { isComplete := true, progress := 100, modelName := info.name }, files)
  else
    let files := if hasOutput info files then { files with output := none } else files
    if cancelled = some .entering then
      (.error (some "StandaloneCoroutine was cancelled".toList), files)
    else fetch digest info server renames (Cancellation.active cancelled) files

/-- A run that is not cancelled; an exception becomes the error of the state. -/
def startDownload (server : ModelServer) (renames : Bool) (files : ModelFiles) :
    Except Text DownloadState × ModelFiles :=
  match downloadModel digest info server renames none files with
  | (.ok state, files) => (.ok state, files)
  | (.error message, files) => (.error (message.getD "Download failed".toList), files)

end ModelDownloader

namespace OfflineModelPicker

/-- The end of one attempt. `renamed`: `renameTo` has returned true. -/
structure Attempt where
  outcome : Except (Option Text) Unit
  renamed : Bool
  files : ModelFiles

/-- `actualTotal`, or the message of a `NumberFormatException`. -/
def actualTotal (reply : ModelReply) (resumeFrom : Nat) : Except (Option Text) Int :=
  if reply.code = 206 then
    match reply.contentRange.bind rangeTotal with
    | some digits =>
      match toLong digits with
      | some total => .ok total
      | none => .error (some ("For input string: \"".toList ++ digits ++ "\"".toList))
    | none => .ok (addLong resumeFrom reply.contentLength)
  else .ok reply.contentLength

def downloadOnce (server : ModelServer) (renames : Bool) (resumeFrom : Nat) (files : ModelFiles) :
    Attempt :=
  match server (if 0 < resumeFrom then some resumeFrom else none) with
  | .error message => ⟨.error message, false, files⟩
  | .ok reply =>
    if !reply.isSuccessful && reply.code ≠ 206 then
      ⟨.error (some ("HTTP ".toList ++ (toString reply.code).toList ++ ": ".toList ++
        reply.message)), false, files⟩
    else if !reply.hasBody then ⟨.error (some "Empty response body".toList), false, files⟩
    else
      match actualTotal reply resumeFrom with
      | .error message => ⟨.error message, false, files⟩
      | .ok total =>
        let (written, thrown) := readLoop reply.broken none reply.body
        let temp := reply.kept files.temp ++ written
        let copied := { files with temp := some temp }
        match thrown with
        | some message => ⟨.error message, false, copied⟩
        | none =>
          if isShort temp.length total then
            ⟨.error (some ("Incomplete: ".toList ++ (toString temp.length).toList ++ "/".toList ++
              (toString total).toList)), false, copied⟩
          else if !renames then
            ⟨.error (some "Failed to rename temp file".toList), false, copied⟩
          else ⟨.ok (), true, ⟨none, some temp⟩⟩

def Attempt.succeeded (attempt : Attempt) : Bool :=
  match attempt.outcome with
  | .ok () => true
  | .error _ => false

/-- The body of the loop of `downloadWithRetry`. -/
def tryOnce (server : Nat → ModelServer) (renames : Nat → Bool) (attempt : Nat)
    (files : ModelFiles) : Attempt × ModelFiles :=
  let once := downloadOnce (server attempt) (renames attempt) (fileLength files.temp) files
  (once, once.files)

def maxAttempts : Nat := 500

/-- The attempts that are made, numbered from one, and the files they leave. The function returns
nothing, after a success as after the last failure. -/
def downloadWithRetry (server : Nat → ModelServer) (renames : Nat → Bool) (files : ModelFiles) :
    List Attempt × ModelFiles :=
  RetryLoop.run (tryOnce server renames) Attempt.succeeded maxAttempts 1 files

/-- The reply to a HEAD request. -/
structure HeadReply where
  isSuccessful : Bool
  linkedSize : Option Text
  contentLength : Option Text
deriving DecidableEq, Repr

/-- `totalSize`; an exception of the request, `none` here, or of `toLong` leaves it at zero. -/
def totalSize : Option HeadReply → Int
  | none => 0
  | some head =>
    if head.isSuccessful then
      match head.linkedSize <|> head.contentLength with
      | some size => (toLong size).getD 0
      | none => 0
    else 0

/-- `formatDouble` is `String.format` of a quotient in the default locale. -/
def formatBytes (formatDouble : Text → Int → Nat → Text) (bytes : Int) : Text :=
  if bytes < 1024 then (toString bytes).toList ++ " B".toList
  else if bytes < 1024 * 1024 then (toString (bytes / 1024)).toList ++ " KB".toList
  else if bytes < 1024 * 1024 * 1024 then formatDouble "%.1f MB".toList bytes (1024 * 1024)
  else formatDouble "%.2f GB".toList bytes (1024 * 1024 * 1024)

/-- `totalSize * 1.2` is `5404319552844595` of the `2 ^ 52`nd parts; as a `Long` it is cut off. -/
def neededSpace (total : Int) : Int :=
  min (Binary64.round (Binary64.round total.toNat * 5404319552844595) / 2 ^ 52 : Nat) (2 ^ 63 - 1)

/-- What `startDownload` does before it downloads. `dirReady`: the directory exists or is made. -/
def prepare (formatDouble : Text → Int → Nat → Text) (dirReady : Bool) (head : Option HeadReply)
    (freeSpace : Nat) : Except Text Int :=
  let total := totalSize head
  if !dirReady then .error "Failed to create models directory".toList
  else if total ≤ 0 then
    .error "Cannot determine file size. Server may not support downloads.".toList
  else if Binary64.below 5404319552844595 52 freeSpace total then
    .error ("Not enough storage. Need ~".toList ++
      formatBytes formatDouble (neededSpace total) ++ " free, have ".toList ++
      formatBytes formatDouble freeSpace)
  else .ok total

/-- A download that is not cancelled: the arguments of `onComplete`, the attempts and the files. -/
structure PickerRun where
  onComplete : Bool × Option Text
  attempts : List Attempt
  files : ModelFiles

def startDownload (formatDouble : Text → Int → Nat → Text) (dirReady : Bool)
    (head : Option HeadReply) (freeSpace : Nat) (server : Nat → ModelServer) (renames : Nat → Bool)
    (files : ModelFiles) : PickerRun :=
  match prepare formatDouble dirReady head freeSpace with
  | .error message => ⟨(false, some message), [], files⟩
  | .ok _ =>
    let (attempts, final) := downloadWithRetry server renames files
    ⟨(true, none), attempts, final⟩

end OfflineModelPicker

namespace HuggingFaceClient

inductive DownloadProgress where
  | started (totalBytes : Int)
  | progress (percent : Int) (downloadedBytes totalBytes : Int)
  | completed
  | error (message : Text)
deriving DecidableEq, Repr

/-- What the loop emits, with the bytes so far and the last percentage. -/
def progressEvents (totalBytes : Int) : Int → Int → List Bytes → List DownloadProgress
  | _, _, [] => []
  | downloadedBytes, lastProgress, piece :: rest =>
    let downloadedBytes := downloadedBytes + piece.length
    let percent := (downloadedBytes * 100).tdiv totalBytes
    if 0 < totalBytes ∧ percent ≠ lastProgress then
      .progress percent downloadedBytes totalBytes ::
        progressEvents totalBytes downloadedBytes percent rest
    else progressEvents totalBytes downloadedBytes lastProgress rest

/-- What a collected flow emits and the files it leaves. -/
def downloadModel (server : ModelServer) (renames : Bool) (files : ModelFiles) :
    List DownloadProgress × ModelFiles :=
  let files := { files with temp := none }
  match server none with
  | .error message => ([.error (message.getD "Unknown error".toList)], files)
  | .ok reply =>
    if !reply.isSuccessful then
      ([.error ("Download failed: ".toList ++ (toString reply.code).toList)], files)
    else if !reply.hasBody then ([.error "Empty response".toList], files)
    else
      let opened := .started reply.contentLength :: progressEvents reply.contentLength 0 (-1) reply.body
      let (written, thrown) := readLoop reply.broken none reply.body
      let copied := { files with temp := some written }
      match thrown with
      | some message => (opened ++ [.error (message.getD "Unknown error".toList)], files)
      | none =>
        if written.isEmpty then
          (opened ++ [.error "Downloaded file is missing or empty".toList], copied)
        else if 0 < reply.contentLength && isShort written.length reply.contentLength then
          (opened ++ [.error "Download incomplete".toList], copied)
        else if !renames then (opened ++ [.error "Failed to finalize download".toList], copied)
        else (opened ++ [.completed], ⟨none, some written⟩)

/-- The flow whose collector is cancelled after `emits` emissions, where that is given: the next
one throws, and the handler deletes the temporary file. -/
def collect (server : ModelServer) (renames : Bool) (emits : Option Nat) (files : ModelFiles) :
    List DownloadProgress × ModelFiles :=
  let (events, final) := downloadModel server renames files
  match emits with
  | none => (events, final)
  | some emits =>
    if events.length ≤ emits then (events, final)
    else
      -- only before the last emission can the file have been moved
      let output := if emits + 1 = events.length then final.output else files.output
      (events.take emits, ⟨none, output⟩)

end HuggingFaceClient

end HeyNilo
