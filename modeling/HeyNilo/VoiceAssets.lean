import HeyNilo.CachedCopies
import HeyNilo.JniText
import HeyNilo.KotlinText
import HeyNilo.Machine
import Mathlib.Algebra.Order.Ring.Nat
import Mathlib.Data.List.Infix

namespace HeyNilo

open CachedCopies Machine

/-- The content of a file in the package. Its size fits the Int of `available()`. -/
structure Asset where
  bytes : Bytes
  size_lt : bytes.length < 2 ^ 31

/-- What one `read` of a copying loop does: it gives at least one byte, if there is one, or throws. -/
inductive AssetRead where
  | bytes (count : Nat)
  | failed
deriving DecidableEq, Repr

/-- The files in the package and those in the external files directory, by their path there. -/
structure VoiceAssets where
  assets : Text → Option Asset
  files : Text → Option Bytes

namespace VoiceAssets

def setFile (s : VoiceAssets) (path : Text) (content : Option Bytes) : VoiceAssets :=
  { s with files := Function.update s.files path content }

/-- The files of the package as originals, the external ones as their copies. -/
def cache (s : VoiceAssets) : Cache Text Bytes := ⟨fun path => (s.assets path).map (·.bytes), s.files⟩

end VoiceAssets

namespace CopyAssetToExternal

def bufferSize : Nat := 8192

/-- The copying loop over the rest of an asset, with what it writes; the process ends where the list
of reads does. -/
def copyLoop : Bytes → List AssetRead → Bool × Bytes
  | _, .failed :: _ => (false, [])
  | [], _ => (true, [])
  | _ :: _, [] => (false, [])
  | b :: rest, .bytes count :: reads =>
    let more := (count - 1) ⊓ (bufferSize - 1)
    let (done, written) := copyLoop (rest.drop more) reads
    (done, b :: rest.take more ++ written)

/-- How a call goes: it throws, or the process ends, before the file is looked at or before it is
truncated; or the loop runs. -/
inductive Course where
  | unseen
  | unopened
  | copies (reads : List AssetRead)
deriving DecidableEq, Repr

/-- The loop reads without an exception and for long enough. -/
def Course.runsThrough (size : Nat) : Course → Bool
  | .copies reads => !reads.contains .failed && size ≤ reads.length
  | _ => false

def copyAssetToExternal (s : VoiceAssets) (assetPath destFile : Text) (course : Course) :
    Bool × VoiceAssets :=
  match s.assets assetPath with
  | none => (false, s)
  | some asset =>
    if course = .unseen then (false, s)
    else if (s.files destFile).map List.length = some asset.bytes.length then (true, s)
    else
      match course with
      | .unseen | .unopened => (false, s)
      | .copies reads =>
        let (done, written) := copyLoop asset.bytes reads
        (done, s.setFile destFile (some written))

end CopyAssetToExternal

namespace VoicePipelineManager

/-- The files that `extractAssets` copies, in its order, each to the same path. -/
def voiceModels : List Text :=
  ["models/vad/silero_vad.onnx".toList, "models/whisper/ggml-tiny.en.bin".toList,
    "models/whisper/ggml-base.en.bin".toList, "models/tts_kokoro/kokoro-v0_19.onnx".toList,
    "models/tts_kokoro/voices.bin".toList]

open CopyAssetToExternal in
/-- The copies one after the other, up to the end of the process, with what each reports. -/
def extractEach (s : VoiceAssets) : List Text → List Course → List Bool × VoiceAssets
  | path :: paths, course :: courses =>
    let (copied, t) := copyAssetToExternal s path path course
    let (reports, u) := extractEach t paths courses
    (copied :: reports, u)
  | _, _ => ([], s)

def extractAssets (s : VoiceAssets) (courses : List CopyAssetToExternal.Course) :
    List Bool × VoiceAssets :=
  extractEach s voiceModels courses

end VoicePipelineManager

open CopyAssetToExternal VoicePipelineManager

namespace VoiceAssets

inductive Event where
  /-- A start of the voice pipeline. -/
  | extract (courses : List Course)
  /-- A new version of the app. -/
  | update (assets : Text → Option Asset)
  | delete (path : Text)

def step (s : VoiceAssets) : Event → Option VoiceAssets
  | .extract courses => some (extractAssets s courses).2
  | .update assets => some { s with assets }
  | .delete path => some (s.setFile path none)

/-- A start of the pipeline none of whose copies is cut. -/
def Uncut (s : VoiceAssets) (courses : List Course) : Prop :=
  List.Forall₂ (fun path course => ∀ asset ∈ s.assets path,
    course.runsThrough asset.bytes.length = true) voiceModels courses

/-- Whatever has been cut so far, one uncut start puts every model in its place and says so. -/
def Repairable (s : VoiceAssets) : Prop :=
  ∀ courses, s.Uncut courses →
    (extractAssets s courses).1 = voiceModels.map (fun path => (s.assets path).isSome) ∧
      ∀ path ∈ voiceModels, (extractAssets s courses).2.cache.Current path

/-- The check of `copyAssetToExternal` on a file that exists. -/
def SameSize (asset content : Bytes) : Prop := content.length = asset.length

instance (asset content : Bytes) : Decidable (SameSize asset content) :=
  inferInstanceAs (Decidable (_ = _))

/-- A file that has the size of a model is that model. -/
def SizeTells (s : VoiceAssets) : Prop :=
  ∀ path ∈ voiceModels, ∀ asset ∈ s.assets path, ∀ content ∈ s.files path,
    SameSize asset.bytes content → content = asset.bytes

instance (s : VoiceAssets) : Decidable s.SizeTells :=
  inferInstanceAs (Decidable (∀ path ∈ voiceModels, ∀ asset ∈ s.assets path,
    ∀ content ∈ s.files path, _ → _))

/-- No update brings a model that has the size of the stored file and not its content. -/
def keepsSizes (s : VoiceAssets) : Event → Prop
  | .update assets => SizeTells { s with assets }
  | _ => True

instance (s : VoiceAssets) : ∀ e, Decidable (keepsSizes s e)
  | .update assets => inferInstanceAs (Decidable (SizeTells { s with assets }))
  | .extract _ | .delete _ => isTrue trivial

/-- What a cut copy of an asset leaves. -/
def cutAsset (assets : Text → Option Asset) (path : Text) (content : Option Bytes) : Prop :=
  ∃ asset ∈ assets path, ∃ written, content = some written ∧ written <+: asset.bytes

variable {s t : VoiceAssets}

theorem sizeTells_iff : s.SizeTells ↔ s.cache.Sound SameSize voiceModels := by
  constructor
  · intro h path hpath bytes hbytes content hcontent
    obtain ⟨asset, hasset, rfl⟩ := Option.map_eq_some_iff.mp hbytes
    exact h path hpath asset hasset content hcontent
  · intro h path hpath asset hasset
    exact h path hpath asset.bytes (Option.mem_map_of_mem _ hasset)

theorem harmless_cutAsset (s : VoiceAssets) :
    Harmless SameSize (cutAsset s.assets) s.cache.original := by
  rintro path _ ⟨asset, hasset, written, rfl, hwritten⟩ bytes hbytes content hcontent hsize
  obtain ⟨asset', hasset', rfl⟩ := Option.map_eq_some_iff.mp hbytes
  cases Option.mem_unique hasset hasset'
  cases Option.some.inj hcontent
  exact hwritten.eq_of_length hsize

theorem copyLoop_spec (rest : Bytes) (reads : List AssetRead) :
    (copyLoop rest reads).2 <+: rest ∧
      ((copyLoop rest reads).1 = true → (copyLoop rest reads).2 = rest) := by
  fun_induction copyLoop rest reads with
  | case1 | case3 => exact ⟨List.nil_prefix, fun h => nomatch h⟩
  | case2 => exact ⟨List.nil_prefix, fun _ => rfl⟩
  | case4 b rest count reads more done written hloop ih =>
    rw [hloop] at ih
    obtain ⟨⟨tail, htail⟩, hwhole⟩ := ih
    simp only at htail hwhole ⊢
    refine ⟨⟨tail, ?_⟩, fun hdone => ?_⟩
    · rw [List.append_assoc, htail, List.cons_append, List.take_append_drop]
    · rw [hwhole hdone, List.cons_append, List.take_append_drop]

theorem copyLoop_runsThrough {rest : Bytes} {reads : List AssetRead} (hreads : .failed ∉ reads)
    (hlength : rest.length ≤ reads.length) : (copyLoop rest reads).1 = true := by
  fun_induction copyLoop rest reads with
  | case1 => exact absurd List.mem_cons_self hreads
  | case2 => rfl
  | case3 => simp at hlength
  | case4 b rest count reads more done written hloop ih =>
    have hmore := ih (fun h => hreads (List.mem_cons_of_mem _ h)) (by
      simp only [List.length_cons, List.length_drop] at *
      omega)
    rwa [hloop] at hmore

theorem copyAssetToExternal_assets (s : VoiceAssets) (path dest : Text) (course : Course) :
    (copyAssetToExternal s path dest course).2.assets = s.assets := by
  unfold copyAssetToExternal
  cases s.assets path with
  | none => rfl
  | some asset =>
    dsimp only
    split
    · rfl
    split
    · rfl
    cases course <;> rfl

theorem copyAssetToExternal_refreshed (s : VoiceAssets) (path : Text) (course : Course) :
    Refreshed SameSize (cutAsset s.assets) False s.cache path
      (copyAssetToExternal s path path course).1 (copyAssetToExternal s path path course).2.cache := by
  unfold copyAssetToExternal
  cases hasset : s.assets path with
  | none => exact .skipped
  | some asset =>
    have horiginal : s.cache.original path = some asset.bytes := congrArg (Option.map _) hasset
    by_cases hunseen : course = .unseen
    · simp only [if_pos hunseen]
      exact .skipped
    by_cases hsize : (s.files path).map List.length = some asset.bytes.length
    · simp only [if_neg hunseen, if_pos hsize]
      obtain ⟨content, hcontent, hlength⟩ := Option.map_eq_some_iff.mp hsize
      refine .kept fun bytes hbytes => ⟨content, hcontent, ?_⟩
      cases Option.mem_unique horiginal hbytes
      exact hlength
    have hstale : ∀ content ∈ s.cache.copy path, ¬ SameSize asset.bytes content := by
      intro content hcontent hlength
      exact hsize (Option.map_eq_some_iff.mpr ⟨content, hcontent, hlength⟩)
    simp only [if_neg hunseen, if_neg hsize]
    cases course with
    | unseen => exact absurd rfl hunseen
    | unopened => exact .skipped
    | copies reads =>
      obtain ⟨hbegins, hwhole⟩ := copyLoop_spec asset.bytes reads
      cases hdone : (copyLoop asset.bytes reads).1 with
      | true =>
        simp only [hwhole hdone]
        exact .whole asset.bytes horiginal (.inr hstale)
      | false =>
        refine .cut _ ⟨asset, hasset, _, rfl, hbegins⟩ (.inr fun bytes hbytes => ?_)
        cases Option.mem_unique horiginal hbytes
        exact hstale

theorem extractEach_refreshedAll (s : VoiceAssets) (paths : List Text) (courses : List Course) :
    RefreshedAll SameSize (cutAsset s.assets) False s.cache paths (extractEach s paths courses).1
      (extractEach s paths courses).2.cache := by
  induction paths generalizing s courses with
  | nil => exact .stopped _ _
  | cons path paths ih =>
    cases courses with
    | nil => exact .stopped _ _
    | cons course courses =>
      have hcopied := copyAssetToExternal_refreshed s path course
      have hmore := ih (copyAssetToExternal s path path course).2 courses
      rw [copyAssetToExternal_assets] at hmore
      exact .cons hcopied hmore

theorem copyAssetToExternal_runsThrough {path : Text} {course : Course} (h : ∀ asset ∈ s.assets path,
    course.runsThrough asset.bytes.length = true) :
    (copyAssetToExternal s path path course).1 = (s.assets path).isSome := by
  unfold copyAssetToExternal
  cases hasset : s.assets path with
  | none => rfl
  | some asset =>
    have hcourse := h asset hasset
    cases course with
    | unseen | unopened => cases hcourse
    | copies reads =>
      obtain ⟨hreads, hlength⟩ : .failed ∉ reads ∧ asset.bytes.length ≤ reads.length := by
        simpa [Course.runsThrough] using hcourse
      simp only [reduceCtorEq, if_false]
      split
      · rfl
      · exact copyLoop_runsThrough hreads hlength

theorem extractEach_runsThrough {assets : Text → Option Asset} {paths : List Text}
    {courses : List Course} (h : List.Forall₂ (fun path course => ∀ asset ∈ assets path,
      course.runsThrough asset.bytes.length = true) paths courses) (hassets : s.assets = assets) :
    (extractEach s paths courses).1 = paths.map fun path => (assets path).isSome := by
  induction h generalizing s with
  | nil => rfl
  | @cons path course paths courses hcourse _ ih =>
    subst hassets
    exact congrArg₂ List.cons (copyAssetToExternal_runsThrough hcourse)
      (ih (copyAssetToExternal_assets s path path course))

theorem SizeTells.repairable (h : s.SizeTells) : s.Repairable := by
  intro courses huncut
  have hreports := extractEach_runsThrough huncut rfl
  refine ⟨hreports, fun path hpath => ?_⟩
  refine (extractEach_refreshedAll s voiceModels courses).current (by decide +kernel)
    (fun _ hpath => hpath) (harmless_cutAsset s) (sizeTells_iff.mp h) ?_ path hpath
  rw [hreports, List.forall₂_map_right_iff, List.forall₂_same]
  intro path _ hpresent
  exact (Option.isSome_map ..).symm.trans hpresent

/-- Reads of single bytes, as many as each asset has. -/
def wholeCourses (s : VoiceAssets) : List Course :=
  voiceModels.map fun path =>
    .copies (List.replicate ((s.assets path).elim 0 (·.bytes.length)) (.bytes 1))

theorem uncut_wholeCourses (s : VoiceAssets) : s.Uncut s.wholeCourses := by
  unfold Uncut wholeCourses
  rw [List.forall₂_map_right_iff, List.forall₂_same]
  intro path _ asset hasset
  rw [Option.mem_def.mp hasset]
  simp [Course.runsThrough]

theorem Repairable.sizeTells (h : s.Repairable) : s.SizeTells := by
  intro path hpath asset hasset content hcontent hsize
  have hall := extractEach_refreshedAll s voiceModels s.wholeCourses
  have horiginal : asset.bytes ∈ s.cache.original path := Option.mem_map_of_mem _ hasset
  have hcurrent := (h _ (uncut_wholeCourses s)).2 path hpath asset.bytes
    (hall.original_eq.symm ▸ horiginal)
  exact Option.mem_unique (hall.keeps_passing not_false horiginal hcontent hsize) hcurrent

theorem step_sizeTells {e : Event} (h : s.SizeTells) (hok : keepsSizes s e)
    (hs : s.step e = some t) : t.SizeTells := by
  cases e with
  | extract courses =>
    cases Option.some.inj hs
    exact sizeTells_iff.mpr ((extractEach_refreshedAll s voiceModels courses).sound
      (harmless_cutAsset s) (sizeTells_iff.mp h))
  | update assets =>
    cases Option.some.inj hs
    exact hok
  | delete path =>
    cases Option.some.inj hs
    intro q hq asset hasset content hcontent
    by_cases hne : q = path
    · subst hne
      cases (Cache.copy_put_self s.cache q none).symm.trans hcontent
    · exact h q hq asset hasset content ((Cache.copy_put_of_ne hne s.cache none).symm.trans hcontent)

/-- Along a run one uncut start is enough in every state exactly when no update brings a model of the
size of the stored file with another content, however the earlier copies were cut. -/
theorem always_repairable_iff {es : List Event} (hfiles : ∀ path ∈ voiceModels, s.files path = none)
    (hr : run step s es = some t) :
    Always step Repairable s es ↔ Meets step keepsSizes s es := by
  refine always_iff_meets (I := SizeTells) (fun s h => h.repairable)
    (fun s e t h hok hs => step_sizeTells h hok hs) ?_ ?_ hr
  · intro s e t h hok hs hrepairable
    cases e with
    | extract | delete => exact hok trivial
    | update assets =>
      cases Option.some.inj hs
      exact hok hrepairable.sizeTells
  · intro path hpath asset _ content hcontent
    rw [Option.mem_def, hfiles path hpath] at hcontent
    cases hcontent

def vadModel (bytes : Bytes) (h : bytes.length < 2 ^ 31) : Text → Option Asset :=
  Function.update (fun _ => none) "models/vad/silero_vad.onnx".toList (some ⟨bytes, h⟩)

/-- A copy that throws after two of three bytes, an update to a model of four bytes, and a copy that
ends with the process. -/
theorem repairable_after_cuts : Always step Repairable
    ⟨vadModel [1, 2, 3] (by decide), fun _ => none⟩
    [.extract [.copies [.bytes 2, .failed]], .update (vadModel [1, 2, 4, 5] (by decide)),
      .extract [.copies [.bytes 1]]] := by
  obtain ⟨t, ht⟩ : ∃ t, run step ⟨vadModel [1, 2, 3] (by decide), fun _ => none⟩
      [.extract [.copies [.bytes 2, .failed]], .update (vadModel [1, 2, 4, 5] (by decide)),
        .extract [.copies [.bytes 1]]] = some t := ⟨_, rfl⟩
  exact (always_repairable_iff (fun _ _ => rfl) ht).mpr (by decide +kernel)

end VoiceAssets

end HeyNilo
