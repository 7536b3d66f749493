import HeyNilo.ChatList

namespace HeyNilo

namespace TokenFilter

def clean : TokenFilter := ⟨[], false⟩

/-- What the tokens of a response add to its message, and the filter after them. -/
def display (f : TokenFilter) : List Text → Text × TokenFilter
  | [] => ([], f)
  | token :: tokens =>
    let filtered := filterStreamingTokenForDisplay f token
    let rest := display filtered.2 tokens
    (filtered.1.getD [] ++ rest.1, rest.2)

/-- The tokens of `<|im_end|>`. -/
def parts : List Text := [['<'], ['|'], "im".toList, "_end".toList, ['|'], ['>']]

/-- The filter after the first parts. -/
def matched (k : Nat) : TokenFilter := ⟨(parts.take k).flatten, decide (0 < k)⟩

def isPlain (token : Text) : Bool :=
  !containsText "<|im_end|>".toList token && !containsText "<|im_start|>".toList token

/-- The tokens together contain neither of the two markers. -/
def Ordinary (tokens : List Text) : Prop := isPlain tokens.flatten = true

instance (tokens : List Text) : Decidable (Ordinary tokens) := inferInstanceAs (Decidable (_ = _))

/-- Nothing is lost and nothing is left over. -/
def Lossless (tokens : List Text) : Prop := display clean tokens = (tokens.flatten, clean)

instance (tokens : List Text) : Decidable (Lossless tokens) := inferInstanceAs (Decidable (_ = _))

/-- The tokens go on with the next parts as they are, and one that is neither the next part nor `<`
follows. -/
def Leaves : (next tokens : List Text) → Prop
  | part :: next, token :: tokens =>
    if trim token = part then token = part ∧ Leaves next tokens else trim token ≠ ['<']
  | _, _ => False

/-- Every `<` is a token without white space around it, and the match it begins is left again. -/
def LeavesMatches (tokens : List Text) : Prop :=
  ∀ before token after, tokens = before ++ token :: after → trim token = ['<'] →
    token = ['<'] ∧ Leaves (parts.drop 1) after

end TokenFilter

open TokenFilter

variable {token : Text} {tokens : List Text} {k : Nat}

theorem contains_of_isPlain (h : isPlain token = true) :
    (containsText "<|im_end|>".toList token || containsText "<|im_start|>".toList token) = false := by
  rw [isPlain, Bool.and_eq_true, Bool.not_eq_true', Bool.not_eq_true'] at h
  rw [h.1, h.2, Bool.or_self]

theorem filter_clean (h : isPlain token = true) : filterStreamingTokenForDisplay clean token =
    if trim token = ['<'] then (none, matched 1) else (some token, clean) := by
  simp only [filterStreamingTokenForDisplay, contains_of_isPlain h, Bool.false_eq_true, if_false,
    clean, Bool.false_and]
  rfl

theorem later_cases (hpos : 0 < k) (hk : k < 6) : k = 1 ∨ k = 2 ∨ k = 3 ∨ k = 4 ∨ k = 5 := by
  omega

theorem index_cases (hk : k < 6) : k = 0 ∨ k = 1 ∨ k = 2 ∨ k = 3 ∨ k = 4 ∨ k = 5 := by
  omega

theorem filter_matched (h : isPlain token = true) (hpos : 0 < k) (hk : k < 6) :
    filterStreamingTokenForDisplay (matched k) token =
      if trim token = ['<'] then (none, matched 1)
      else if trim token = parts.getD k [] then (none, if k = 5 then clean else matched (k + 1))
      else (some ((parts.take k).flatten ++ token), clean) := by
  simp only [filterStreamingTokenForDisplay, contains_of_isPlain h, Bool.false_eq_true, if_false]
  generalize trim token = trimmed
  have hcases := later_cases hpos hk
  by_cases hopen : trimmed = ['<']
  · rw [if_pos hopen, if_pos hopen]
    rfl
  by_cases hbar : trimmed = ['|']
  · subst hbar
    rcases hcases with rfl | rfl | rfl | rfl | rfl <;> rfl
  by_cases him : trimmed = "im".toList
  · subst him
    rcases hcases with rfl | rfl | rfl | rfl | rfl <;> rfl
  by_cases hend : trimmed = "_end".toList
  · subst hend
    rcases hcases with rfl | rfl | rfl | rfl | rfl <;> rfl
  by_cases hclose : trimmed = ['>']
  · subst hclose
    rcases hcases with rfl | rfl | rfl | rfl | rfl <;> rfl
  have hpart : trimmed ≠ parts.getD k [] := by
    rcases hcases with rfl | rfl | rfl | rfl | rfl <;> assumption
  have hcollecting : (matched k).isCollectingImEnd = true := decide_eq_true hpos
  simp only [hopen, hbar, him, hend, hclose, hpart, hcollecting, decide_false, Bool.and_false,
    Bool.false_and, Bool.false_eq_true, if_false, if_true]
  rfl

theorem display_token (h : isPlain token = true) (hk : k < 6) :
    display (matched k) (token :: tokens) =
      if trim token = ['<'] then display (matched 1) tokens
      else if 0 < k ∧ trim token = parts.getD k [] then
        display (if k = 5 then clean else matched (k + 1)) tokens
      else ((parts.take k).flatten ++ token ++ (display clean tokens).1,
        (display clean tokens).2) := by
  rw [display]
  by_cases hpos : 0 < k
  · rw [filter_matched h hpos hk]
    simp only [hpos, true_and]
    split
    next => rfl
    next =>
      split
      next => rfl
      next => rfl
  · obtain rfl : k = 0 := by omega
    have hclean : matched 0 = clean := rfl
    rw [hclean, filter_clean h]
    simp only [hpos, false_and, if_false]
    split
    next => rfl
    next => rfl

theorem take_parts_succ (hk : k < 6) :
    (parts.take (k + 1)).flatten = (parts.take k).flatten ++ parts.getD k [] := by
  rcases index_cases hk with rfl | rfl | rfl | rfl | rfl | rfl <;> rfl

/-- A part with white space around it is shown shorter than it came. -/
theorem part_cases (h : trim token = parts.getD k []) :
    token = parts.getD k [] ∨ (parts.getD k []).length < token.length := by
  have hwithin := trim_isInfix token
  rw [h] at hwithin
  rcases Nat.lt_or_eq_of_le hwithin.length_le with hlt | heq
  · exact Or.inr hlt
  · exact Or.inl (hwithin.eq_of_length heq).symm

theorem length_part_pos (hk : k < 6) : 0 < (parts.getD k []).length := by
  rcases index_cases hk with rfl | rfl | rfl | rfl | rfl | rfl <;> decide

/-- No more is shown than came. -/
theorem length_display_le (h : ∀ token ∈ tokens, isPlain token = true) (hk : k < 6) :
    (display (matched k) tokens).1.length ≤
      (parts.take k).flatten.length + tokens.flatten.length := by
  induction tokens generalizing k with
  | nil => exact Nat.zero_le _
  | cons token tokens ih =>
    rw [List.forall_mem_cons] at h
    rw [display_token h.1 hk, List.flatten_cons, List.length_append]
    split
    next hopen =>
      have hlen := (trim_isInfix token).length_le
      have hone := ih h.2 (k := 1) (by omega)
      have hpart : (parts.take 1).flatten.length = 1 := rfl
      rw [hopen] at hlen
      rw [List.length_singleton] at hlen
      omega
    next =>
      split
      next hpart =>
        have hlen := (trim_isInfix token).length_le
        rw [hpart.2] at hlen
        split
        next =>
          have hclean := ih h.2 (k := 0) (by omega)
          have hnone : (parts.take 0).flatten.length = 0 := rfl
          exact hclean.trans (by omega)
        next =>
          have hnext := ih h.2 (k := k + 1) (by omega)
          rw [take_parts_succ hk, List.length_append] at hnext
          omega
      next =>
        have hclean := ih h.2 (k := 0) (by omega)
        have hnone : (parts.take 0).flatten.length = 0 := rfl
        rw [hnone, Nat.zero_add] at hclean
        rw [List.length_append, List.length_append]
        change _ + (display (matched 0) tokens).1.length ≤ _
        omega

theorem leavesMatches_cons : LeavesMatches (token :: tokens) ↔
    (trim token = ['<'] → token = ['<'] ∧ Leaves (parts.drop 1) tokens) ∧ LeavesMatches tokens := by
  constructor
  · intro h
    exact ⟨h [] token tokens rfl, fun before t after heq => h (token :: before) t after
      (by rw [heq]; rfl)⟩
  · rintro ⟨hfirst, hrest⟩ before t after heq
    cases before with
    | nil =>
      cases heq
      exact hfirst
    | cons b before =>
      rw [List.cons_append, List.cons_eq_cons] at heq
      exact hrest before t after heq.2

theorem not_open_of_part (hpos : 0 < k) (hk : k < 6) : parts.getD k [] ≠ ['<'] := by
  rcases later_cases hpos hk with rfl | rfl | rfl | rfl | rfl <;> decide

theorem leaves_drop (hk : k < 6) : Leaves (parts.drop k) (token :: tokens) ↔
    if trim token = parts.getD k [] then
      token = parts.getD k [] ∧ Leaves (parts.drop (k + 1)) tokens
    else trim token ≠ ['<'] := by
  rcases index_cases hk with rfl | rfl | rfl | rfl | rfl | rfl <;> exact Iff.rfl

theorem display_ne {j : Nat} {text : Text} (h : ∀ token ∈ tokens, isPlain token = true) (hj : j < 6)
    (hlt : (parts.take j).flatten.length + tokens.flatten.length < text.length) :
    display (matched j) tokens ≠ (text, clean) := by
  intro heq
  have hle := length_display_le h hj
  rw [heq] at hle
  simp only at hle
  omega

/-- After the first parts, nothing is lost exactly if the match is left again, and the later ones
are. Else what is shown is shorter than what came. -/
theorem display_eq_iff (h : ∀ token ∈ tokens, isPlain token = true) (hk : k < 6) :
    display (matched k) tokens = ((parts.take k).flatten ++ tokens.flatten, clean) ↔
      (0 < k → Leaves (parts.drop k) tokens) ∧ LeavesMatches tokens := by
  induction tokens generalizing k with
  | nil =>
    have hmatches : LeavesMatches [] := fun before _ _ heq => by
      cases before <;> cases heq
    rw [display, List.flatten_nil, List.append_nil]
    by_cases hpos : 0 < k
    · refine iff_of_false (fun heq => ?_) fun hleaves => ?_
      · have hflag := congrArg (fun x => x.2.isCollectingImEnd) heq
        have htrue : (matched k).isCollectingImEnd = true := decide_eq_true hpos
        rw [htrue] at hflag
        cases hflag
      · have hnil := hleaves.1 hpos
        unfold Leaves at hnil
        split at hnil
        next heq => cases heq
        next => exact hnil
    · obtain rfl : k = 0 := by omega
      exact iff_of_true rfl ⟨fun hlt => absurd hlt hpos, hmatches⟩
  | cons token tokens ih =>
    rw [List.forall_mem_cons] at h
    rw [leavesMatches_cons, leaves_drop hk, display_token h.1 hk, List.flatten_cons]
    have hone : (parts.take 1).flatten.length = 1 := rfl
    have hlength := (trim_isInfix token).length_le
    by_cases hopen : trim token = ['<']
    · rw [if_pos hopen, forall_prop_of_true hopen]
      rw [hopen, List.length_singleton] at hlength
      by_cases hpos : 0 < k
      · -- the parts collected so far are dropped
        have hpart := not_open_of_part hpos hk
        refine iff_of_false (display_ne h.2 (by omega) ?_) fun hleaves => ?_
        · obtain ⟨m, rfl⟩ : ∃ m, k = m + 1 := ⟨k - 1, by omega⟩
          have hlast := length_part_pos (k := m) (by omega)
          have hbuffer := congrArg List.length (take_parts_succ (k := m) (by omega))
          rw [List.length_append] at hbuffer
          rw [List.length_append, List.length_append]
          omega
        · have hnot := hleaves.1 hpos
          rw [if_neg fun heq => hpart (heq.symm.trans hopen)] at hnot
          exact hnot hopen
      · obtain rfl : k = 0 := by omega
        have hnil : (parts.take 0).flatten = [] := rfl
        rw [hnil, List.nil_append]
        rcases part_cases (k := 0) hopen with htoken | hlt
        · have hnext := ih h.2 (k := 1) (by omega)
          have htake : (parts.take 1).flatten = token := htoken.symm
          rw [htake, forall_prop_of_true Nat.one_pos] at hnext
          rw [hnext]
          constructor
          · rintro ⟨hleaves, hmatches⟩
            exact ⟨fun hlt => absurd hlt hpos, ⟨htoken, hleaves⟩, hmatches⟩
          · rintro ⟨-, ⟨-, hleaves⟩, hmatches⟩
            exact ⟨hleaves, hmatches⟩
        · have hpart : (parts.getD 0 []).length = 1 := rfl
          refine iff_of_false (display_ne h.2 (by omega) ?_) fun hleaves => ?_
          · rw [List.length_append]
            omega
          · rw [hleaves.2.1.1, List.length_singleton] at hlt
            omega
    · rw [if_neg hopen, forall_prop_of_false hopen, true_and]
      by_cases hpart : 0 < k ∧ trim token = parts.getD k []
      · rw [if_pos hpart, if_pos hpart.2, forall_prop_of_true hpart.1]
        have hpos := length_part_pos hk
        by_cases hlast : k = 5
        · -- a complete pattern is dropped
          subst hlast
          rw [hpart.2] at hlength
          refine iff_of_false (display_ne (j := 0) h.2 (by omega) ?_) fun hleaves => ?_
          · have hnone : (parts.take 0).flatten.length = 0 := rfl
            rw [List.length_append, List.length_append]
            omega
          · exact hleaves.1.2
        · rw [if_neg hlast]
          rcases part_cases hpart.2 with htoken | hlt
          · have hnext := ih h.2 (k := k + 1) (by omega)
            rw [take_parts_succ hk, ← htoken, List.append_assoc,
              forall_prop_of_true (Nat.succ_pos k)] at hnext
            rw [hnext]
            constructor
            · rintro ⟨hleaves, hmatches⟩
              exact ⟨⟨htoken, hleaves⟩, hmatches⟩
            · rintro ⟨⟨-, hleaves⟩, hmatches⟩
              exact ⟨hleaves, hmatches⟩
          · refine iff_of_false (display_ne h.2 (by omega) ?_) fun hleaves => ?_
            · rw [take_parts_succ hk, List.length_append, List.length_append, List.length_append]
              omega
            · rw [← hleaves.1.1] at hlt
              exact Nat.lt_irrefl _ hlt
      · rw [if_neg hpart]
        have hclean := ih h.2 (k := 0) (by omega)
        have hnil : (parts.take 0).flatten = [] := rfl
        have hstart : matched 0 = clean := rfl
        rw [hnil, List.nil_append, hstart] at hclean
        have hsame : ((parts.take k).flatten ++ token ++ (display clean tokens).1,
            (display clean tokens).2) =
              ((parts.take k).flatten ++ (token ++ tokens.flatten), clean) ↔
            display clean tokens = (tokens.flatten, clean) := by
          rw [Prod.mk.injEq, List.append_assoc, List.append_cancel_left_eq,
            List.append_cancel_left_eq, Prod.ext_iff]
        rw [hsame, hclean]
        constructor
        · rintro ⟨-, hmatches⟩
          refine ⟨fun hpos => ?_, hmatches⟩
          rw [if_neg fun heq => hpart ⟨hpos, heq⟩]
          exact hopen
        · rintro ⟨-, hmatches⟩
          exact ⟨fun hlt => absurd hlt (Nat.lt_irrefl 0), hmatches⟩

theorem isPlain_of_ordinary (h : Ordinary tokens) (hmem : token ∈ tokens) : isPlain token = true := by
  have hinfix : token <:+: tokens.flatten := List.infix_of_mem_flatten hmem
  rw [Ordinary, isPlain, Bool.and_eq_true, Bool.not_eq_true', Bool.not_eq_true', containsText,
    containsText, decide_eq_false_iff_not, decide_eq_false_iff_not] at h
  rw [isPlain, Bool.and_eq_true, Bool.not_eq_true', Bool.not_eq_true', containsText, containsText,
    decide_eq_false_iff_not, decide_eq_false_iff_not]
  exact ⟨fun hend => h.1 (hend.trans hinfix), fun hstart => h.2 (hstart.trans hinfix)⟩

theorem lossless_iff (h : Ordinary tokens) : Lossless tokens ↔ LeavesMatches tokens := by
  have hdisplay := display_eq_iff (k := 0) (fun token => isPlain_of_ordinary h) (by omega)
  have hnone : ¬0 < 0 := Nat.lt_irrefl 0
  rw [forall_prop_of_false hnone, true_and] at hdisplay
  exact hdisplay

/-- The collector adds what is displayed to the message of the request. -/
theorem queueResponses_display (s : ChatList) (id : Text) (tokens : List Text) :
    let t := tokens.foldl (fun s token => s.queueResponse ⟨id, some token, false, none⟩) s
    t.tokenFilter = (display s.tokenFilter tokens).2 ∧
      t.messages = s.messages.map fun msg =>
        if msg.id = id then
          { msg with content := msg.content ++ (display s.tokenFilter tokens).1 }
        else msg := by
  induction tokens generalizing s with
  | nil => simp [display]
  | cons token tokens ih =>
    obtain ⟨hfilter, hmessages⟩ := ih (s.queueResponse ⟨id, some token, false, none⟩)
    rw [List.foldl_cons]
    refine ⟨hfilter.trans ?_, hmessages.trans ?_⟩
    · rw [display]
      cases hshown : filterStreamingTokenForDisplay s.tokenFilter token with
      | mk shown f => cases shown <;> simp [ChatList.queueResponse, ChatList.updateMessage, hshown]
    · rw [display]
      cases hshown : filterStreamingTokenForDisplay s.tokenFilter token with
      | mk shown f =>
        cases shown with
        | none => simp [ChatList.queueResponse, hshown]
        | some text =>
          simp only [ChatList.queueResponse, ChatList.updateMessage, hshown, Bool.false_eq_true,
            if_false, List.map_map, Option.getD_some]
          refine List.map_congr_left fun msg _ => ?_
          by_cases hid : msg.id = id
          · simp [hid]
          · simp [hid]

theorem lossless_less_than : Lossless ["1 ".toList, ['<'], " 2".toList] := by
  refine (lossless_iff (by decide)).mpr fun before token after heq hopen => ?_
  match before, heq with
  | [], heq => cases heq; exact absurd hopen (by decide)
  | [_], heq =>
    cases heq
    exact ⟨rfl, (leaves_drop (k := 1) (by omega)).mpr (by rw [if_neg (by decide)]; decide)⟩
  | [_, _], heq => cases heq; exact absurd hopen (by decide)
  | _ :: _ :: _ :: before, heq => cases before <;> cases heq

/-- The response ends in what could be the beginning of the marker. -/
theorem lossless_fails : ¬∀ tokens, Ordinary tokens → Lossless tokens := by
  intro h
  exact absurd (h ["1 ".toList, ['<']] (by decide)) (by decide)

end HeyNilo
