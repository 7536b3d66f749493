import HeyNilo.SpokenOnce
import HeyNilo.SpokenWords

namespace HeyNilo

open WordRuns TextPattern TextFilter

section

variable {c : Char} {text slice reply : Text} {slices : List Text} {taken : Text → Bool}
  {rules : List Rule}

theorem toNat_of_isAlphanum (h : c.isAlphanum = true) : 48 ≤ c.toNat ∧ c.toNat ≤ 122 := by
  have hrange {low high : UInt32} (h : (decide (c.val ≥ low) && decide (c.val ≤ high)) = true) :
      low.toNat ≤ c.toNat ∧ c.toNat ≤ high.toNat := by
    obtain ⟨hlow, hhigh⟩ := Bool.and_eq_true_iff.mp h
    exact ⟨of_decide_eq_true hlow, of_decide_eq_true hhigh⟩
  have hcases : (c.isUpper || c.isLower || c.isDigit) = true := h
  rcases Bool.or_eq_true_iff.mp hcases with hletter | hdigit
  · rcases Bool.or_eq_true_iff.mp hletter with hupper | hlower
    · obtain ⟨hlow, hhigh⟩ : c.val ≥ 'A'.val ∧ c.val ≤ 'Z'.val := of_decide_eq_true hupper
      have hlow : 65 ≤ c.toNat := hlow
      have hhigh : c.toNat ≤ 90 := hhigh
      omega
    · obtain ⟨hlow, hhigh⟩ := hrange hlower
      have hlow : 97 ≤ c.toNat := hlow
      exact ⟨by omega, hhigh⟩
  · obtain ⟨hlow, hhigh⟩ := hrange hdigit
    have hhigh : c.toNat ≤ 57 := hhigh
    exact ⟨hlow, by omega⟩

theorem not_isAlphanum (h : c.toNat < 48 ∨ 122 < c.toNat) : c.isAlphanum = false := by
  by_contra hc
  have hrange := toNat_of_isAlphanum (Bool.not_eq_false _ ▸ hc)
  omega

theorem not_isWordChar_of_space (h : isPatternSpace c = true) : isWordChar c = false := by
  have halnum : c.isAlphanum = false := by
    refine not_isAlphanum ?_
    simp [isPatternSpace] at h
    omega
  simp [isWordChar, halnum, h]

theorem not_isWordChar_of_whitespace (h : isWhitespace c = true) : isWordChar c = false := by
  have halnum : c.isAlphanum = false := by
    refine not_isAlphanum ?_
    simp [isWhitespace] at h
    omega
  simp [isWordChar, halnum, h]

theorem isWordChar_of_isCjk (h : isCjk c = true) : isWordChar c = true := by
  simp [isCjk] at h
  have hspace : isPatternSpace c = false := by
    simp [isPatternSpace]
    omega
  have hwhite : isWhitespace c = false := by
    simp [isWhitespace]
    omega
  simp [isWordChar, hspace, hwhite, punctuationBlocks]
  omega

theorem not_isWordChar_of_sentenceEnd (h : isSentenceEnd c = true) : isWordChar c = false := by
  simp only [isSentenceEnd, Bool.or_eq_true, beq_iff_eq] at h
  rcases h with (rfl | rfl) | rfl <;> decide

theorem words_trim (text : Text) : wordsOf (trim text) = wordsOf text := by
  obtain ⟨front, back, htext, hfront, hback⟩ := split_trim text
  have hall : wordsOf text = wordsOf (front ++ trim text ++ back) := congrArg wordsOf htext
  rw [hall]
  unfold wordsOf
  rw [words_append_gaps fun c hc => not_isWordChar_of_whitespace (hback c hc),
    words_gaps_append fun c hc => not_isWordChar_of_whitespace (hfront c hc)]

theorem lines_ne_nil (text : Text) : lines text ≠ [] := by
  induction text using lines.induct with
  | case1 => exact List.cons_ne_nil _ _
  | case2 text ih => exact List.cons_ne_nil _ _
  | case3 c text hpair hend ih => simp [lines, hend]
  | case4 c text hpair hend line rest hlines ih => simp [lines, hend, hlines]
  | case5 c text hpair hend hlines ih => exact absurd hlines ih

/-- Lines put together again have the words of the text. -/
theorem scan_lines (text : Text) :
    scan isWordChar (['\n'].intercalate (lines text)) = scan isWordChar text := by
  have hnewline : isWordChar '\n' = false := by decide
  have hreturn : isWordChar '\r' = false := by decide
  have hblank (text : Text) :
      ['\n'].intercalate ([] :: lines text) = '\n' :: ['\n'].intercalate (lines text) := by
    cases hlines : lines text with
    | nil => exact absurd hlines (lines_ne_nil text)
    | cons line rest => rw [List.intercalate_cons_cons]; rfl
  induction text using lines.induct with
  | case1 => rfl
  | case2 text ih =>
    rw [lines, hblank, scan_gap hnewline, scan_gap hreturn, words_gap hnewline, words, ih, words]
  | case3 c text hpair hend ih =>
    have hgap : isWordChar c = false := by
      rcases Bool.or_eq_true_iff.mp hend with h | h
      · rw [beq_iff_eq.mp h, hnewline]
      · rw [beq_iff_eq.mp h, hreturn]
    have hcut : lines (c :: text) = [] :: lines text := by simp [lines, hend]
    rw [hcut, hblank, scan_gap hnewline, scan_gap hgap, words, ih, words]
  | case4 c text hpair hend line rest hlines ih =>
    have hcut : lines (c :: text) = (c :: line) :: rest := by simp [lines, hend, hlines]
    have hcons : ['\n'].intercalate ((c :: line) :: rest) = c :: ['\n'].intercalate (line :: rest) := by
      cases rest with
      | nil => rfl
      | cons next rest => rw [List.intercalate_cons_cons, List.intercalate_cons_cons]; rfl
    rw [hcut, hcons]
    rw [hlines] at ih
    exact scan_cons_congr c ih
  | case5 c text hpair hend hlines ih => exact absurd hlines (lines_ne_nil text)

theorem removePromptLines_words
    (h : ∀ line ∈ lines text, ReplyFilter.isPromptLine line = false) :
    wordsOf (ReplyFilter.removePromptLines text) = wordsOf text := by
  have hkept : (lines text).filter (fun line => !ReplyFilter.isPromptLine line) = lines text :=
    List.filter_eq_self.mpr fun line hline => by simp [h line hline]
  unfold ReplyFilter.removePromptLines
  rw [hkept, words_trim]
  exact congrArg close (scan_lines text)

theorem mem_of_accepts {accepts : Char → Bool} {least : Nat} {w : Text}
    (h : Accepts [many accepts least] w) : ∀ c ∈ w, accepts c = true := by
  obtain ⟨u, v, rfl, hu, -, -, hv⟩ := h
  rw [hv, List.append_nil]
  exact hu

/-- A run of gaps is replaced by gaps. -/
theorem sparesWords_of_gaps {accepts : Char → Bool} {least : Nat} {new : String}
    (hnew : new.toList ≠ []) (hgaps : isGap new.toList = true)
    (h : ∀ c, accepts c = true → isWordChar c = false) :
    SparesWords taken [[many accepts least]] new text := by
  intro m hm
  obtain ⟨htext, items, hitems, haccepts⟩ := accepts_of_mem_matches hm
  rw [List.mem_singleton.mp hitems] at haccepts
  exact ⟨hgaps, Match.spares_of_gaps hnew htext fun c hc => h c (mem_of_accepts haccepts c hc)⟩

theorem cleanup_spares (taken : Text → Bool) (text : Text) :
    SparesAll taken ReplyFilter.cleanup text := by
  have hspaces (text : Text) : SparesWords taken [[many isPatternSpace 2]] " " text :=
    sparesWords_of_gaps (by decide) (by decide) fun c hc => not_isWordChar_of_space hc
  have hnewlines (text : Text) : SparesWords taken [[many (· == '\n') 3]] "\n\n" text :=
    sparesWords_of_gaps (by decide) (by decide) fun c hc => by
      rw [beq_iff_eq.mp hc]
      decide
  exact ⟨hspaces text, hnewlines _, trivial⟩

/-- What the display keeps of a reply: no end marker is found, every rule spares all words but MEMORY,
and no line is dropped. -/
structure Displays (reply : Text) : Prop where
  whole : ∀ marker ∈ ReplyFilter.endMarkers, indexOfIgnoreCase marker.toList reply = none
  spared : SparesAll isMemory ReplyFilter.rules reply
  lines : ∀ line ∈ HeyNilo.lines (applyAll ReplyFilter.rules reply),
    ReplyFilter.isPromptLine line = false

theorem rules_wellFormed : ∀ rule ∈ ReplyFilter.rules, rule.WellFormed := by
  have hall : ReplyFilter.rules.all Rule.rewrites = true := by decide +kernel
  exact fun rule hrule => Rule.wellFormed_of_rewrites (List.all_eq_true.mp hall rule hrule)

theorem filterAiResponse_loses (h : Displays reply) :
    Loses isMemory (wordsOf (filterAiResponse reply)) (wordsOf reply) := by
  unfold filterAiResponse
  split
  next => exact .refl _ _
  next =>
    have htruncate : ReplyFilter.truncate reply = reply := by
      unfold ReplyFilter.truncate
      rw [List.findSome?_eq_none_iff.mpr h.whole]
    have hcleanup : ∀ rule ∈ ReplyFilter.cleanup, rule.WellFormed := fun rule hrule =>
      Rule.wellFormed_of_rewrites (List.all_eq_true.mp (by decide) rule hrule)
    rw [htruncate, words_trim]
    refine (loses_applyAll hcleanup (cleanup_spares _ _)).trans ?_
    rw [removePromptLines_words h.lines]
    exact loses_applyAll rules_wellFormed h.spared

/-- The rules of `removeImEndTokenOnly`. -/
def imEndRules : List Rule := [
  .literal "<|im_end|>" "",
  .literal "|im_end|>" "",
  .literal "|im_end|" "",
  .literal "im_end|" ""]

/-- What the speech keeps of a slice: every rule spares the words that it does not take whole. -/
def Speaks (slice : Text) : Prop :=
  SparesAll (fun _ => true) (imEndRules ++ speechRules) (trim slice)

instance (slice : Text) : Decidable (Speaks slice) :=
  inferInstanceAs (Decidable (SparesAll _ _ _))

/-- The slices of a reply that `startStreamingTTS` takes: all but the last one end a sentence. -/
def IsSlicing (slices : List Text) (reply : Text) : Prop :=
  slices.flatten = reply ∧ ∀ slice ∈ slices.dropLast, slice.getLast?.any isSentenceEnd = true

instance (slices : List Text) (reply : Text) : Decidable (IsSlicing slices reply) :=
  inferInstanceAs (Decidable (_ ∧ _))

theorem sparesAll_append {front back : List Rule} (h : SparesAll taken (front ++ back) text) :
    SparesAll taken front text ∧ SparesAll taken back (applyAll front text) := by
  induction front generalizing text with
  | nil => exact ⟨trivial, h⟩
  | cons rule front ih =>
    obtain ⟨hfront, hback⟩ := ih h.2
    exact ⟨⟨h.1, hfront⟩, hback⟩

theorem speechRules_wellFormed : ∀ rule ∈ imEndRules ++ speechRules, rule.WellFormed := by
  have hall : ∀ rule ∈ (imEndRules ++ speechRules.take 23) ++ speechRules.drop 24,
      rule.rewrites = true := by
    decide +kernel
  have hsplit : imEndRules ++ speechRules =
      (imEndRules ++ speechRules.take 23) ++ .each isCjk "" :: speechRules.drop 24 := rfl
  intro rule hrule
  rw [hsplit] at hrule
  rcases List.mem_append.mp hrule with hfront | hback
  · exact Rule.wellFormed_of_rewrites (hall rule (List.mem_append_left _ hfront))
  · rcases List.mem_cons.mp hback with rfl | hback
    · exact fun c hc => isWordChar_of_isCjk hc
    · exact Rule.wellFormed_of_rewrites (hall rule (List.mem_append_right _ hback))

/-- The first rule of `filterTTSText`. -/
def memoryPattern : TextPattern Char := [[optional '['] ++ letters "MEMORY" ++ [optional ']']]

theorem accepts_letters {old : String} {w : Text} (h : w.map foldCase = old.toList.map foldCase) :
    Accepts (letters old) w := by
  unfold letters
  generalize old.toList = cs at h
  induction cs generalizing w with
  | nil => exact List.map_eq_nil_iff.mp h
  | cons c cs ih =>
    cases w with
    | nil => cases h
    | cons d w =>
      obtain ⟨hd, hw⟩ := List.cons.inj h
      refine ⟨[d], w, rfl, ?_, le_refl _, ?_, ih hw⟩
      · intro x hx
        rw [List.mem_singleton.mp hx]
        exact beq_iff_eq.mpr hd
      · intro most hmost
        cases hmost
        exact le_refl _

theorem accepts_append {front back : List (PatternItem Char)} {u v : Text} (hu : Accepts front u)
    (hv : Accepts back v) : Accepts (front ++ back) (u ++ v) := by
  induction front generalizing u with
  | nil =>
    cases hu
    exact hv
  | cons item front ih =>
    obtain ⟨x, y, rfl, hx, hleast, hmost, hy⟩ := hu
    exact ⟨x, y ++ v, List.append_assoc x y v, hx, hleast, hmost, ih hy⟩

theorem ne_nil_of_accepts {items : List (PatternItem Char)} {w : Text} (h : Accepts items w)
    (hleast : ∃ item ∈ items, 0 < item.least) : w ≠ [] := by
  induction items generalizing w with
  | nil =>
    obtain ⟨item, hitem, -⟩ := hleast
    cases hitem
  | cons item items ih =>
    obtain ⟨u, v, rfl, -, hu, -, hv⟩ := h
    obtain ⟨other, hother, hpos⟩ := hleast
    rcases List.mem_cons.mp hother with rfl | hother
    · exact List.append_ne_nil_of_left_ne_nil (List.ne_nil_of_length_pos (hpos.trans_le hu)) v
    · exact List.append_ne_nil_of_right_ne_nil u (ih hv ⟨other, hother, hpos⟩)

theorem accepts_optional (c : Char) : Accepts [optional c] [] :=
  ⟨[], [], rfl, fun _ hx => absurd hx List.not_mem_nil, le_refl _, fun most _ => Nat.zero_le most, rfl⟩

/-- A match begins at every word MEMORY. -/
theorem eats_memory {w : Text} (rest : Text) (hw : isMemory w = true) :
    ∃ rest', Eats memoryPattern (w ++ rest) rest' := by
  have hletters : Accepts (letters "MEMORY") w := accepts_letters (beq_iff_eq.mp hw)
  have haccepts : Accepts ([optional '['] ++ letters "MEMORY" ++ [optional ']']) w := by
    have hall := accepts_append (accepts_append (accepts_optional '[') hletters) (accepts_optional ']')
    rwa [List.nil_append, List.append_nil] at hall
  obtain ⟨rest', hmatch⟩ := Option.isSome_iff_exists.mp (matchItems_isSome haccepts)
  obtain ⟨eaten, hsplit, heaten⟩ := matchItems_some hmatch
  refine ⟨rest', ?_, ?_⟩
  · unfold matchFront memoryPattern
    rw [List.findSome?_singleton, hmatch]
  · have hne := ne_nil_of_accepts heaten (by decide)
    rw [hsplit, List.length_append]
    exact Nat.lt_add_of_pos_left (List.length_pos_iff.mpr hne)

theorem words_memoryRule (h : (Rule.pattern memoryPattern "").Spares (fun _ => true) text) :
    Thins (fun word => isMemory word = false) (fun _ => True)
      (wordsOf ((Rule.pattern memoryPattern "").apply text)) (wordsOf text) := by
  refine words_replaceAll (isGap_iff.mp (by decide)) (fun w rest _ _ => ?_) fun m hm => ?_
  · cases hw : isMemory w with
    | false => exact .inl rfl
    | true => exact .inr (eats_memory rest hw)
  · obtain ⟨-, hspares⟩ := h m hm
    exact ⟨hspares.front, hspares.back, hspares.gap, fun _ _ => trivial⟩

/-- With the rule for MEMORY first no word of the result is MEMORY. -/
theorem words_applyAll_memory (hwf : ∀ rule ∈ rules, rule.WellFormed)
    (h : SparesAll (fun _ => true) (.pattern memoryPattern "" :: rules) text) :
    (wordsOf (applyAll (.pattern memoryPattern "" :: rules) text)).Sublist (wordsOf text) ∧
      ∀ word ∈ wordsOf (applyAll (.pattern memoryPattern "" :: rules) text),
        isMemory word = false := by
  have hmemory := words_memoryRule h.1
  have hrules : Loses (fun _ => true) _ _ := loses_applyAll hwf h.2
  exact ⟨hrules.sublist.trans hmemory.sublist, fun word hword =>
    hmemory.kept word (hrules.sublist.subset hword)⟩

/-- The words of a piece are words of its slice, and MEMORY is none of them. -/
theorem words_filtered {piece : Text} (h : Speaks slice)
    (hpiece : StreamingSpeech.filtered slice = some piece) :
    (wordsOf piece).Sublist (wordsOf slice) ∧ ∀ word ∈ wordsOf piece, isMemory word = false := by
  obtain ⟨hnonblank, rfl⟩ : isBlank (trim slice) = false ∧ filterTTSText (trim slice) = piece := by
    unfold StreamingSpeech.filtered at hpiece
    dsimp only at hpiece
    split at hpiece
    next hblank =>
      refine ⟨by simpa using hblank, ?_⟩
      split at hpiece
      next => exact Option.some.inj hpiece
      next => cases hpiece
    next => cases hpiece
  obtain ⟨hends, hspeech⟩ := sparesAll_append h
  have hwf := speechRules_wellFormed
  have hsplit : speechRules = .pattern memoryPattern "" :: speechRules.tail := rfl
  have hends : Loses (fun _ => true) (wordsOf (removeImEndTokenOnly (trim slice)))
      (wordsOf (trim slice)) :=
    loses_applyAll (fun rule hrule => hwf rule (List.mem_append_left _ hrule)) hends
  have hmore : ∀ rule ∈ speechRules.tail, rule.WellFormed := fun rule hrule =>
    hwf rule (List.mem_append_right _ (List.mem_of_mem_tail hrule))
  rw [hsplit] at hspeech
  obtain ⟨hwords, hmemory⟩ := words_applyAll_memory hmore hspeech
  rw [← hsplit] at hwords hmemory
  rw [filterTTSText, if_neg (ne_true_of_eq_false hnonblank), words_trim, ← words_trim slice]
  exact ⟨hwords.trans hends.sublist, hmemory⟩

theorem words_pieces (h : ∀ slice ∈ slices, Speaks slice) :
    ((StreamingSpeech.pieces slices).flatMap wordsOf).Sublist (slices.flatMap wordsOf) ∧
      ∀ word ∈ (StreamingSpeech.pieces slices).flatMap wordsOf, isMemory word = false := by
  induction slices with
  | nil => exact ⟨List.Sublist.refl _, fun _ hword => absurd hword List.not_mem_nil⟩
  | cons slice slices ih =>
    obtain ⟨hslice, hslices⟩ := List.forall_mem_cons.mp h
    obtain ⟨hwords, hmemory⟩ := ih hslices
    unfold StreamingSpeech.pieces at hwords hmemory ⊢
    cases hpiece : StreamingSpeech.filtered slice with
    | none =>
      rw [List.filterMap_cons_none hpiece, List.flatMap_cons]
      exact ⟨hwords.trans (List.sublist_append_right _ _), hmemory⟩
    | some piece =>
      obtain ⟨hfirst, hnone⟩ := words_filtered hslice hpiece
      rw [List.filterMap_cons_some hpiece, List.flatMap_cons, List.flatMap_cons]
      refine ⟨hfirst.append hwords, fun word hword => ?_⟩
      exact (List.mem_append.mp hword).elim (hnone word) (hmemory word)

/-- No word goes over the end of a slice. -/
theorem words_flatten (h : ∀ slice ∈ slices.dropLast, slice.getLast?.any isSentenceEnd = true) :
    wordsOf slices.flatten = slices.flatMap wordsOf := by
  induction slices with
  | nil => rfl
  | cons slice slices ih =>
    cases slices with
    | nil => simp [List.flatMap_cons]
    | cons next slices =>
      obtain ⟨hslice, hmore⟩ := List.forall_mem_cons.mp h
      have hend : joins isWordChar slice.getLast? (next :: slices).flatten.head? = false := by
        cases hlast : slice.getLast? with
        | none => rfl
        | some c =>
          rw [hlast] at hslice
          rw [joins, Option.any_some, not_isWordChar_of_sentenceEnd hslice, Bool.false_and]
      rw [List.flatten_cons, List.flatMap_cons, ← ih hmore]
      exact words_append hend

end

namespace StreamingSpeech

variable {s t : StreamingSpeech} {e : Event}

def EndsSentence (slice : Text) : Prop := slice.getLast?.any isSentenceEnd = true

/-- All slices end a sentence, except the one that the loop took before its wait. -/
structure Sliced (s : StreamingSpeech) : Prop where
  front : ∀ slice ∈ s.slices.dropLast, EndsSentence slice
  going : ∀ loop ∈ s.streamingTTSJob, loop.point ≠ .waiting → ∀ slice ∈ s.slices, EndsSentence slice

theorem Sliced.of_kept (h : Sliced s) (hslices : t.slices = s.slices)
    (hjob : t.streamingTTSJob = s.streamingTTSJob ∨ t.streamingTTSJob = none) : Sliced t where
  front := hslices ▸ h.front
  going loop hloop := by
    rcases hjob with hjob | hjob
    · exact hslices ▸ h.going loop (hjob ▸ hloop)
    · rw [hjob] at hloop
      cases hloop

theorem Sliced.of_nil (h : s.slices = []) : Sliced s where
  front := by simp [h]
  going := by simp [h]

/-- Where a TTS job can start nothing has been taken. -/
theorem Phase.slices_of_idle (h : Phase s) (hidle : s.ttsIdle = true) (hreply : s.reply ≠ .done) :
    s.slices = [] := by
  cases h with
  | unstarted shown hshows hunstarted => exact hunstarted.slices
  | speaking shown a loop hshows hspeaking =>
    exact Bool.noConfusion ((ttsIdle_of_active hspeaking.active).symm.trans hidle)
  | waiting shown loop hshows hspoken hjob hpoint hactive =>
    exact Bool.noConfusion ((ttsIdle_of_active hactive).symm.trans hidle)
  | ended hspoken hjob hactive hdone => exact absurd hdone hreply

theorem slices_startStreamingTTS (s : StreamingSpeech) : s.startStreamingTTS.slices = s.slices := by
  unfold startStreamingTTS
  split
  next => rfl
  next => split <;> rfl

theorem endsSentence_take {text : Text} {k : Nat} (h : text.findIdx? isSentenceEnd = some k) :
    EndsSentence (text.take (k + 1)) := by
  obtain ⟨hk, hend, -⟩ := List.findIdx?_eq_some_iff_getElem.mp h
  have hlast : (text.take (k + 1)).getLast? = some text[k] := by
    rw [List.take_add_one, List.getElem?_eq_getElem hk]
    exact List.getLast?_concat
  unfold EndsSentence
  rw [hlast]
  exact hend

theorem Sliced.speakSentence {loop : SpeechLoop} (h : Sliced s) (hloop : s.streamingTTSJob = some loop)
    (hpoint : loop.point = .sentence) : Sliced (s.speakSentence loop) := by
  have hall : ∀ slice ∈ s.slices, EndsSentence slice :=
    h.going loop hloop (by rw [hpoint]; decide)
  have hkept (next : SpeechLoop) : Sliced { s with streamingTTSJob := some next } :=
    ⟨h.front, fun _ _ _ => hall⟩
  unfold StreamingSpeech.speakSentence
  dsimp only
  split
  next =>
    split
    next k hk =>
      have hmore : ∀ slice ∈ s.slices ++ [_], EndsSentence slice := fun slice hslice => by
        rcases List.mem_append.mp hslice with hslice | hslice
        · exact hall slice hslice
        · exact List.mem_singleton.mp hslice ▸ endsSentence_take hk
      exact ⟨fun slice hslice => hmore slice (List.mem_of_mem_dropLast hslice), fun _ _ _ => hmore⟩
    next => exact hkept _
  next => exact hkept _

theorem Sliced.speakRemainder {loop : SpeechLoop} (h : Sliced s)
    (hloop : s.streamingTTSJob = some loop) (hpoint : loop.point = .completion) :
    Sliced (s.speakRemainder loop) := by
  have hall : ∀ slice ∈ s.slices, EndsSentence slice :=
    h.going loop hloop (by rw [hpoint]; decide)
  unfold StreamingSpeech.speakRemainder
  split
  next =>
    dsimp only
    split
    next =>
      refine ⟨?_, fun next hnext hgoing => absurd ?_ hgoing⟩
      · change ∀ slice ∈ (s.slices ++ [s.sourceText.drop loop.lastSentToTTSIndex]).dropLast, _
        rw [List.dropLast_concat]
        exact hall
      · exact (Option.some.inj hnext) ▸ rfl
    next => exact ⟨h.front, fun _ _ _ => hall⟩
  next => exact ⟨h.front, fun _ _ _ => hall⟩

theorem slices_started (hphase : Phase s) (hidle : s.ttsIdle = true) (hreply : s.reply ≠ .done) :
    s.startStreamingTTS.slices = [] :=
  (slices_startStreamingTTS s).trans (hphase.slices_of_idle hidle hreply)

theorem sliced_step (hphase : Phase s) (h : Sliced s) (hs : step s e = some t) : Sliced t := by
  cases e with
  | stream text =>
    obtain ⟨-, hs⟩ := Option.ite_none_right_eq_some.mp hs
    split at hs
    next => cases hs; exact h.of_kept rfl (.inl rfl)
    next => cases hs; exact h.of_kept rfl (.inl rfl)
  | setBubble =>
    obtain ⟨-, hs⟩ := Option.ite_none_right_eq_some.mp hs
    cases hs
    exact h.of_kept rfl (.inl rfl)
  | complete =>
    obtain ⟨-, hs⟩ := Option.ite_none_right_eq_some.mp hs
    cases hs
    exact h.of_kept rfl (.inl rfl)
  | setFinalBubble =>
    obtain ⟨-, hs⟩ := Option.ite_none_right_eq_some.mp hs
    cases hs
    exact h.of_kept rfl (.inl rfl)
  | checkSentence =>
    obtain ⟨hreply, hs⟩ := Option.ite_none_right_eq_some.mp hs
    cases hs
    split
    next hstarts =>
      have hidle := (Bool.and_eq_true_iff.mp hstarts).1
      refine .of_nil (slices_started hphase hidle ?_)
      rw [hreply]
      decide
    next => exact h.of_kept rfl (.inl rfl)
  | checkTTS restarts =>
    obtain ⟨hreply, hs⟩ := Option.ite_none_right_eq_some.mp hs
    cases hs
    split
    next hstarts =>
      have hidle := (Bool.and_eq_true_iff.mp hstarts).1
      refine .of_nil (slices_started hphase hidle ?_)
      rw [hreply]
      decide
    next =>
      split
      next => exact h.of_kept rfl (.inr rfl)
      next => exact h.of_kept rfl (.inl rfl)
  | loop =>
    obtain ⟨loop, hloop, hs⟩ := Option.bind_eq_some_iff.mp hs
    cases hpoint : loop.point with
    | sentence =>
      rw [hpoint] at hs
      cases hs
      exact h.speakSentence hloop hpoint
    | completion =>
      rw [hpoint] at hs
      cases hs
      exact h.speakRemainder hloop hpoint
    | waiting =>
      rw [hpoint] at hs
      cases hs
  | loopEnds =>
    obtain ⟨loop, -, hs⟩ := Option.bind_eq_some_iff.mp hs
    obtain ⟨-, hs⟩ := Option.ite_none_right_eq_some.mp hs
    cases hs
    exact h.of_kept rfl (.inr rfl)
  | completionWait =>
    obtain ⟨-, hs⟩ := Option.ite_none_right_eq_some.mp hs
    cases hs
    exact h.of_kept rfl (.inl rfl)

/-- A reply that is spoken once is spoken in slices. -/
theorem isSlicing_of_run {events : List Event} (hr : Machine.run step start events = some s)
    (hmeets : Machine.Meets step endsAfterCheck start events) (hend : s.Finished)
    (hread : isBlank s.finalBubbleText = false) : IsSlicing s.slices s.finalBubbleText := by
  have hboth : Phase s ∧ Sliced s := Machine.run_invariant
    (I := fun u => Phase u ∧ Sliced u)
    (fun u e v hu hok hv => ⟨phase_step hu.1 hok hv, sliced_step hu.1 hu.2 hv⟩)
    ⟨phase_start, .of_nil rfl⟩ hmeets hr
  obtain ⟨hwhole, -⟩ := hboth.1.speaksReply hend
  refine ⟨hwhole.resolve_right fun hblank => ?_, hboth.2.front⟩
  exact Bool.noConfusion (hread.symm.trans hblank.1)

end StreamingSpeech

end HeyNilo
