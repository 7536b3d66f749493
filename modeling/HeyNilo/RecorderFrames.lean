import HeyNilo.KotlinText
import Mathlib.Algebra.GroupWithZero.Nat

namespace HeyNilo

/-- A result of `AudioRecord.read`: the samples it put at the front of the buffer, none of them for
zero, or an error code. -/
inductive ReadResult where
  | samples (buffer : List Int16)
  | error (code : Int)
deriving DecidableEq, Repr

/-- What the callback of a recording is given. -/
structure Recording where
  frames : List (List Int16)
  error : Option Text
deriving DecidableEq, Repr

namespace SimpleAudioRecorder

def frameSize : Nat := 512

/-- The loop over the frames of one read, from `offset` on. -/
def splitFrames (buffer : List Int16) (offset : Nat) : List (List Int16) :=
  if offset + frameSize ≤ buffer.length then
    (buffer.drop offset).take frameSize :: splitFrames buffer (offset + frameSize)
  else []
termination_by buffer.length - offset
decreasing_by
  unfold frameSize at *
  omega

def errorMsg (code : Int) : Text :=
  if code = -3 then "Invalid operation".toList
  else if code = -2 then "Bad value".toList
  else if code = -6 then "Dead object".toList
  else if code = -1 then "Unknown error".toList
  else "Error code: ".toList ++ (toString code).toList

/-- The read loop of `startRecording`; the recording is stopped after the last result. -/
def record : List ReadResult → Recording
  | [] => ⟨[], none⟩
  | .samples buffer :: results =>
    let rest := record results
    { rest with frames := splitFrames buffer 0 ++ rest.frames }
  | .error code :: _ => ⟨[], some ("Recording error: ".toList ++ errorMsg code)⟩

/-- The frames delivered for a sequence of reads without an error. -/
def framesOf (reads : List (List Int16)) : List (List Int16) :=
  (record (reads.map .samples)).frames

/-- All frames are of full size, and what is not delivered is a remainder at the end that is shorter
than a frame. -/
def LosesNothing (reads : List (List Int16)) : Prop :=
  (∀ frame ∈ framesOf reads, frame.length = frameSize) ∧
    ∃ remainder : List Int16, remainder.length < frameSize ∧
      (framesOf reads).flatten ++ remainder = reads.flatten

/-- From the first read on that is not a whole number of frames, all that comes after its last frame
is shorter than a frame. -/
def staysFramed : List Nat → Bool
  | [] => true
  | size :: sizes =>
    if size % frameSize = 0 then staysFramed sizes else size % frameSize + sizes.sum < frameSize

variable {buffer : List Int16} {reads : List (List Int16)}

theorem splitFrames_length (offset : Nat) :
    ∀ frame ∈ splitFrames buffer offset, frame.length = frameSize := by
  fun_induction splitFrames buffer offset with
  | case1 offset hfull ih =>
    refine List.forall_mem_cons.mpr ⟨?_, ih⟩
    rw [List.length_take, List.length_drop]
    omega
  | case2 offset hfull => exact fun frame hframe => absurd hframe List.not_mem_nil

/-- The frames of a read are its front, up to the last full frame. -/
theorem splitFrames_flatten (offset : Nat) : (splitFrames buffer offset).flatten =
    (buffer.drop offset).take (frameSize * ((buffer.length - offset) / frameSize)) := by
  fun_induction splitFrames buffer offset with
  | case1 offset hfull ih =>
    have hcount : (buffer.length - offset) / frameSize =
        (buffer.length - (offset + frameSize)) / frameSize + 1 := by
      rw [← Nat.sub_sub]
      exact Nat.div_eq_sub_div (by decide) (by omega)
    rw [List.flatten_cons, ih, hcount, Nat.mul_succ, Nat.add_comm (frameSize * _) frameSize,
      List.take_add, List.drop_drop]
  | case2 offset hfull =>
    have hpos : 0 < frameSize := by decide
    rw [Nat.div_eq_of_lt (by omega), Nat.mul_zero]
    rfl

theorem framesOf_cons (buffer : List Int16) (reads : List (List Int16)) :
    framesOf (buffer :: reads) = splitFrames buffer 0 ++ framesOf reads := rfl

theorem framesOf_length : ∀ frame ∈ framesOf reads, frame.length = frameSize := by
  induction reads with
  | nil => exact fun frame hframe => absurd hframe List.not_mem_nil
  | cons buffer reads ih =>
    intro frame hframe
    rw [framesOf_cons] at hframe
    rcases List.mem_append.mp hframe with hframe | hframe
    · exact splitFrames_length 0 frame hframe
    · exact ih frame hframe

theorem flatten_framesOf_cons (buffer : List Int16) (reads : List (List Int16)) :
    (framesOf (buffer :: reads)).flatten =
      buffer.take (frameSize * (buffer.length / frameSize)) ++ (framesOf reads).flatten := by
  rw [framesOf_cons, List.flatten_append, splitFrames_flatten, List.drop_zero, Nat.sub_zero]

/-- Reads that are shorter than a frame in all deliver none. -/
theorem framesOf_short (h : (reads.map (·.length)).sum < frameSize) : framesOf reads = [] := by
  induction reads with
  | nil => rfl
  | cons buffer reads ih =>
    rw [List.map_cons, List.sum_cons] at h
    have hnone : splitFrames buffer 0 = [] := by
      rw [splitFrames, if_neg (by omega)]
    rw [framesOf_cons, hnone, ih (by omega)]
    rfl

theorem length_flatten (reads : List (List Int16)) :
    reads.flatten.length = (reads.map (·.length)).sum := List.length_flatten

theorem losesNothing_of_staysFramed (h : staysFramed (reads.map (·.length)) = true) :
    LosesNothing reads := by
  refine ⟨framesOf_length, ?_⟩
  induction reads with
  | nil => exact ⟨[], by decide, rfl⟩
  | cons buffer reads ih =>
    rw [List.map_cons, staysFramed] at h
    rw [flatten_framesOf_cons, List.flatten_cons]
    split at h
    next hwhole =>
      obtain ⟨remainder, hshort, heq⟩ := ih h
      have hall : frameSize * (buffer.length / frameSize) = buffer.length :=
        Nat.mul_div_cancel' (Nat.dvd_of_mod_eq_zero hwhole)
      exact ⟨remainder, hshort, by rw [hall, List.take_length, List.append_assoc, heq]⟩
    next hragged =>
      have htotal : buffer.length % frameSize + (reads.map (·.length)).sum < frameSize := by
        simpa using h
      have hcut := Nat.div_add_mod buffer.length frameSize
      refine ⟨buffer.drop (frameSize * (buffer.length / frameSize)) ++ reads.flatten, ?_, ?_⟩
      · rw [List.length_append, List.length_drop, length_flatten]
        omega
      · rw [framesOf_short (by omega), List.flatten_nil, List.append_nil, ← List.append_assoc,
          List.take_append_drop]

/-- Silence, but for one sample that is lost. -/
def clickRead : List Nat → List (List Int16)
  | [] => []
  | size :: sizes =>
    if size % frameSize = 0 then List.replicate size 0 :: clickRead sizes
    else
      (List.replicate (frameSize * (size / frameSize)) 0 ++
        1 :: List.replicate (size % frameSize - 1) 0) :: sizes.map fun size => List.replicate size 0

theorem clickRead_sizes (sizes : List Nat) : (clickRead sizes).map (·.length) = sizes := by
  induction sizes with
  | nil => rfl
  | cons size sizes ih =>
    rw [clickRead]
    split
    next => rw [List.map_cons, List.length_replicate, ih]
    next hragged =>
      have hcut := Nat.div_add_mod size frameSize
      have hlength : frameSize * (size / frameSize) + (size % frameSize - 1 + 1) = size := by omega
      simp only [List.map_cons, List.length_append, List.length_replicate, List.length_cons,
        List.map_map, Function.comp_def, hlength, List.map_id']

theorem framesOf_silent (sizes : List Nat) :
    ∀ x ∈ (framesOf (sizes.map fun size => List.replicate size 0)).flatten, x = 0 := by
  induction sizes with
  | nil => exact fun x hx => absurd hx List.not_mem_nil
  | cons size sizes ih =>
    intro x hx
    rw [List.map_cons, flatten_framesOf_cons] at hx
    rcases List.mem_append.mp hx with hx | hx
    · exact List.eq_of_mem_replicate (List.mem_of_mem_take hx)
    · exact ih x hx

/-- The one sample is missed, or more than a frame is. -/
theorem clickRead_loses {sizes : List Nat} (h : staysFramed sizes = false) :
    ¬ LosesNothing (clickRead sizes) := by
  rintro ⟨-, remainder, hshort, heq⟩
  induction sizes with
  | nil => cases h
  | cons size sizes ih =>
    rw [staysFramed] at h
    rw [clickRead] at heq
    split at h
    next hwhole =>
      rw [if_pos hwhole, flatten_framesOf_cons, List.flatten_cons, List.length_replicate,
        Nat.mul_div_cancel' (Nat.dvd_of_mod_eq_zero hwhole), List.take_replicate, Nat.min_self,
        List.append_assoc] at heq
      exact ih h (List.append_cancel_left heq)
    next hragged =>
      have hcut := Nat.div_add_mod size frameSize
      have hlong : frameSize ≤ size % frameSize + sizes.sum := by
        simpa using h
      have hfloor : (frameSize * (size / frameSize) + (size % frameSize - 1 + 1)) / frameSize =
          size / frameSize := by
        rw [show frameSize * (size / frameSize) + (size % frameSize - 1 + 1) = size by omega]
      rw [if_neg hragged, flatten_framesOf_cons, List.flatten_cons, List.length_append,
        List.length_replicate, List.length_cons, List.length_replicate, hfloor,
        List.take_left' List.length_replicate, List.append_assoc, List.append_assoc] at heq
      have htail := List.append_cancel_left heq
      cases hframes : (framesOf (sizes.map fun size => List.replicate size 0)).flatten with
      | nil =>
        have hlength := congrArg List.length htail
        simp only [hframes, List.nil_append, List.length_append, List.length_cons,
          List.length_replicate, length_flatten, List.map_map, Function.comp_def, List.map_id']
          at hlength
        omega
      | cons x rest =>
        rw [hframes] at htail
        have hx : x = 0 := framesOf_silent sizes x (hframes ▸ List.mem_cons_self)
        have hone : x = 1 := (List.cons.inj htail).1
        exact absurd (hx.symm.trans hone) (by decide)

/-- Reads of these sizes lose nothing, whatever the samples, exactly when from the first read on that
is not a whole number of frames all that comes after its last frame is shorter than a frame. -/
theorem framing_loses_nothing_iff (sizes : List Nat) :
    (∀ reads : List (List Int16), reads.map (·.length) = sizes → LosesNothing reads) ↔
      staysFramed sizes = true := by
  constructor
  · intro h
    by_contra hragged
    exact clickRead_loses (Bool.not_eq_true _ ▸ hragged) (h _ (clickRead_sizes sizes))
  · intro h reads hsizes
    exact losesNothing_of_staysFramed (hsizes ▸ h)

/-- Two reads of 640 samples lose a quarter of a frame between them. -/
theorem ragged_reads_lose :
    ¬ ∀ reads : List (List Int16), LosesNothing reads :=
  fun h => clickRead_loses (by decide : staysFramed [640, 640] = false) (h _)

end SimpleAudioRecorder

end HeyNilo
