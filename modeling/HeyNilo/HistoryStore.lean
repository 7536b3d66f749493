import HeyNilo.GenerateStream
import HeyNilo.Machine
import HeyNilo.Utf8
import Mathlib.Data.List.Forall2

namespace HeyNilo

open Utf8 Machine

/-- The last four of a list, or all where there are fewer. -/
def lastFour {α : Type*} (xs : List α) : List α := xs.drop (xs.length - 4)

/-- The entry that `nativeAddToHistory` makes of a role and a content. -/
def entryOf (call : Bytes × Bytes) : Bytes × Bytes := (call.1, truncateForHistory call.1 call.2)

/-- A history variable: the calls of `nativeAddToHistory` since the history was last cleared. -/
def nextCalls (calls : List (Bytes × Bytes)) (_ : LlamaState) : NativeEvent → List (Bytes × Bytes)
  | .addToHistory role content => calls ++ [(role, content)]
  | .clearContext => []
  | _ => calls

/-- What an event makes of the history. -/
def historyAfter (history : List (Bytes × Bytes)) : NativeEvent → List (Bytes × Bytes)
  | .addToHistory role content => lastFour (history ++ [entryOf (role, content)])
  | .clearContext => []
  | _ => history

/-- The entry of a call: its content, which for the assistant is cut to at most 800 bytes and `...`,
as a well-formed text. -/
structure KeptWell (call entry : Bytes × Bytes) : Prop where
  role : entry.1 = call.1
  other : call.1 ≠ ascii "assistant" → entry.2 = call.2
  assistant : call.1 = ascii "assistant" →
    entry.2 = call.2 ∧ call.2.length ≤ 800 ∨
      ∃ kept, kept <+: call.2 ∧ kept.length ≤ 800 ∧ entry.2 = kept ++ ascii "..."
  wellFormed : WellFormed entry.2

/-- The cut at 800 bytes falls inside a character. -/
def cutsCharacter (call : Bytes × Bytes) : Bool :=
  call.1 == ascii "assistant" && call.2[800]?.any isTail

theorem lastFour_concat {α : Type*} (xs : List α) (x : α) :
    lastFour (lastFour xs ++ [x]) = lastFour (xs ++ [x]) := by
  have hinner : lastFour xs ++ [x] = (xs ++ [x]).drop (xs.length - 4) :=
    (List.drop_append_of_le_length (Nat.sub_le _ _)).symm
  rw [hinner]
  unfold lastFour
  rw [List.drop_drop]
  congr 1
  simp only [List.length_drop, List.length_append, List.length_singleton]
  omega

theorem lastFour_map {α β : Type*} (f : α → β) (xs : List α) :
    lastFour (xs.map f) = (lastFour xs).map f := by
  rw [lastFour, lastFour, List.length_map, List.map_drop]

theorem mem_of_mem_lastFour {α : Type*} {xs : List α} {x : α} (h : x ∈ lastFour xs) : x ∈ xs :=
  List.mem_of_mem_drop h

theorem wellFormed_dots (s : Bytes) : WellFormed (s ++ ascii "...") ↔ WellFormed s := by
  have hdots : WellFormed (ascii "...") := ⟨['.', '.', '.'], by decide⟩
  constructor
  · intro h
    have hlen : s.length < (s ++ ascii "...").length := by
      rw [List.length_append]
      exact Nat.lt_add_of_pos_right (by decide)
    have hcut := wellFormed_take_iff h hlen
    rw [List.take_left] at hcut
    have hdot : (s ++ ascii "...")[s.length] = 0x2E := by
      rw [List.getElem_append_right (Nat.le_refl _)]
      simp only [Nat.sub_self]
      rfl
    refine hcut.mpr ?_
    rw [hdot]
    decide
  · intro h
    exact h.append hdots

theorem keptWell_iff {call : Bytes × Bytes} (h : WellFormed call.2) :
    KeptWell call (entryOf call) ↔ cutsCharacter call = false := by
  obtain ⟨role, content⟩ := call
  by_cases hrole : role = ascii "assistant"
  · by_cases hlong : 800 < content.length
    · have hentry : entryOf (role, content) = (role, content.take 800 ++ ascii "...") := by
        simp [entryOf, truncateForHistory, hrole, hlong]
      have hcut : cutsCharacter (role, content) = isTail content[800] := by
        simp [cutsCharacter, hrole, hlong]
      rw [hentry, hcut, ← wellFormed_take_iff h hlong]
      constructor
      · intro hkept
        exact (wellFormed_dots _).mp hkept.wellFormed
      · intro hwell
        refine ⟨rfl, fun hother => absurd hrole hother, fun _ => .inr ?_,
          (wellFormed_dots _).mpr hwell⟩
        exact ⟨content.take 800, List.take_prefix _ _, List.length_take_le _ _, rfl⟩
    · have hentry : entryOf (role, content) = (role, content) := by
        simp [entryOf, truncateForHistory, hlong]
      have hcut : cutsCharacter (role, content) = false := by
        have hnone : content[800]? = none := List.getElem?_eq_none (Nat.le_of_not_lt hlong)
        simp [cutsCharacter, hnone]
      rw [hentry]
      exact iff_of_true
        ⟨rfl, fun _ => rfl, fun _ => .inl ⟨rfl, Nat.le_of_not_lt hlong⟩, h⟩ hcut
  · have hentry : entryOf (role, content) = (role, content) := by
      simp [entryOf, truncateForHistory, hrole]
    have hcut : cutsCharacter (role, content) = false := by simp [cutsCharacter, hrole]
    rw [hentry]
    exact iff_of_true ⟨rfl, fun _ => rfl, fun hsame => absurd hsame hrole, h⟩ hcut

namespace LlamaState

variable {m : LlamaModel} {s t : LlamaState} {e : NativeEvent}

/-- Only `nativeAddToHistory` and `clearContext` change the history. -/
theorem step_history (ht : s.step m e = some t) : t.history = historyAfter s.history e := by
  cases step_sound ht with
  | reused gen ok hg hpc =>
    unfold LlamaState.reuseKv
    split <;> rfl
  | promptDecoded gen i r hg hpc => cases r <;> rfl
  | tokenDecoded gen token r hg hpc => cases r <;> rfl
  | sampled gen token hg hpc =>
    rcases afterSample_cases m s gen token with he | he | ⟨_, _, _, he⟩ <;> rw [he] <;> rfl
  | _ => rfl

/-- The history holds the entries of the last four calls. -/
theorem history_eq {nBatch : Int} {nCtx : Nat} {systemPrompt : Bytes} {es : List NativeEvent}
    {calls : List (Bytes × Bytes)}
    (hr : Machine.run (withHistory (LlamaState.step m) nextCalls)
      (LlamaState.loaded nBatch nCtx systemPrompt, []) es = some (s, calls)) :
    s.history = (lastFour calls).map entryOf := by
  refine run_preserves (I := fun x => x.1.history = (lastFour x.2).map entryOf) ?_ rfl hr
  rintro ⟨s, calls⟩ e ⟨t, calls'⟩ hs ht
  obtain ⟨hstep, rfl⟩ := withHistory_iff.mp ht
  have hnext := step_history hstep
  simp only at hs ⊢
  cases e with
  | addToHistory role content =>
    rw [hnext, hs, historyAfter, ← lastFour_map, lastFour_concat, nextCalls, ← lastFour_map,
      List.map_append]
    rfl
  | clearContext => exact hnext
  | _ => exact hnext.trans hs

/-- Where all contents are well-formed, the history holds the last four calls as it should exactly
where none of them is the assistant's and cut inside a character. -/
theorem history_kept_iff {nBatch : Int} {nCtx : Nat} {systemPrompt : Bytes} {es : List NativeEvent}
    {calls : List (Bytes × Bytes)}
    (hr : Machine.run (withHistory (LlamaState.step m) nextCalls)
      (LlamaState.loaded nBatch nCtx systemPrompt, []) es = some (s, calls))
    (hcalls : ∀ call ∈ calls, WellFormed call.2) :
    List.Forall₂ KeptWell (lastFour calls) s.history ↔
      ∀ call ∈ lastFour calls, cutsCharacter call = false := by
  rw [history_eq hr, List.forall₂_map_right_iff, List.forall₂_same]
  constructor
  · intro h call hcall
    exact (keptWell_iff (hcalls call (mem_of_mem_lastFour hcall))).mp (h call hcall)
  · intro h call hcall
    exact (keptWell_iff (hcalls call (mem_of_mem_lastFour hcall))).mpr (h call hcall)

theorem history_kept_twoCalls :
    ∃ s, Machine.run (withHistory (LlamaState.step byteModel) nextCalls)
        (LlamaState.loaded 512 1024 [], [])
        [.addToHistory (ascii "user") (ascii "hi"),
          .addToHistory (ascii "assistant") (ascii "hello")] =
          some (s, [(ascii "user", ascii "hi"), (ascii "assistant", ascii "hello")]) ∧
      List.Forall₂ KeptWell [(ascii "user", ascii "hi"), (ascii "assistant", ascii "hello")]
        s.history := by
  obtain ⟨s, hr⟩ : ∃ s, Machine.run (withHistory (LlamaState.step byteModel) nextCalls)
      (LlamaState.loaded 512 1024 [], [])
      [.addToHistory (ascii "user") (ascii "hi"),
        .addToHistory (ascii "assistant") (ascii "hello")] =
        some (s, [(ascii "user", ascii "hi"), (ascii "assistant", ascii "hello")]) := ⟨_, rfl⟩
  refine ⟨s, hr, (history_kept_iff hr ?_).mpr ?_⟩
  · intro call hcall
    rcases List.mem_cons.mp hcall with rfl | hcall
    · exact ⟨['h', 'i'], by decide⟩
    · rw [List.mem_singleton.mp hcall]
      exact ⟨['h', 'e', 'l', 'l', 'o'], by decide⟩
  · decide

/-- `a` and 400 times `é`: the cut falls inside the last of them. -/
theorem history_cut_accent :
    ¬∀ (m : LlamaModel) (nBatch : Int) (nCtx : Nat) (systemPrompt : Bytes) (es : List NativeEvent)
      (s : LlamaState) (calls : List (Bytes × Bytes)),
      Machine.run (withHistory (LlamaState.step m) nextCalls)
        (LlamaState.loaded nBatch nCtx systemPrompt, []) es = some (s, calls) →
      (∀ call ∈ calls, WellFormed call.2) →
      List.Forall₂ KeptWell (lastFour calls) s.history := by
  intro h
  obtain ⟨content, hcontent⟩ : ∃ content, content = encode ('a' :: List.replicate 400 'é') :=
    ⟨_, rfl⟩
  have hwell : WellFormed content := ⟨_, hcontent⟩
  have hcut : cutsCharacter (ascii "assistant", content) = true := by
    rw [hcontent]
    decide +kernel
  have hkept := h byteModel 512 1024 [] [.addToHistory (ascii "assistant") content] _
    [(ascii "assistant", content)] rfl (by simpa using hwell)
  have hentry : KeptWell (ascii "assistant", content) (entryOf (ascii "assistant", content)) := by
    cases hkept with
    | cons hfirst _ => exact hfirst
  rw [keptWell_iff hwell, hcut] at hentry
  cases hentry

end LlamaState

end HeyNilo
