import HeyNilo.AbbreviationRules

open TextPieces

namespace HeyNilo

open SpokenText

/-- The first letters, and what the later rules could take them for. -/
structure Spellable (w : Text) : Prop where
  letters : 3 ≤ w.length ∧ ∀ c ∈ w.take 3, isLatin (foldCase c) = true
  chars : ∀ c ∈ w, isLatin (foldCase c) = true ∨ c = ' '
  number : ∀ cut ∈ cuts w, ∀ c ∈ cut.2.head?, foldCase c = 'n' → EndsInLatin (cut.1.map foldCase)
  numberTail : ∀ c ∈ w.head?, foldCase c ≠ 'o'
  date : ∀ cut ∈ cuts w, ∀ c ∈ cut.2.head?, 'A' ≤ c ∧ c ≤ 'Z' →
    EndsInLatin (cut.1.map foldCase) ∨ 4 ≤ cut.2.length
  time : (w.take 2).map foldCase ≠ "am".toList ∧ (w.take 2).map foldCase ≠ "pm".toList
  spaces : ∀ cut ∈ cuts w, ∀ c ∈ cut.2.head?, c = ' ' →
    cut.1 ≠ [] ∧ ∃ d ∈ cut.2.tail.head?, isLatin (foldCase d) = true

instance (w : Text) : Decidable (Spellable w) :=
  decidable_of_iff (_ ∧ _ ∧ _ ∧ _ ∧ _ ∧ _ ∧ _) ⟨fun h => ⟨h.1, h.2.1, h.2.2.1, h.2.2.2.1, h.2.2.2.2.1,
    h.2.2.2.2.2.1, h.2.2.2.2.2.2⟩, fun h => ⟨h.1, h.2, h.3, h.4, h.5, h.6, h.7⟩⟩

theorem toNat_of_latin {c : Char} (h : isLatin (foldCase c) = true) :
    c.toNat = 0x212A ∨ c.toNat = 0x17F ∨ (65 ≤ c.toNat ∧ c.toNat ≤ 90) ∨
      (97 ≤ c.toNat ∧ c.toNat ≤ 122) := by
  unfold foldCase at h
  split at h
  next hkelvin => exact .inl hkelvin
  next =>
    split at h
    next hlong => exact .inr (.inl hlong)
    next =>
      unfold Char.toLower at h
      split at h
      next hupper =>
        have hlow : 65 ≤ c.toNat := hupper.1
        have hhigh : c.toNat ≤ 90 := hupper.2
        exact .inr (.inr (.inl ⟨hlow, hhigh⟩))
      next =>
        simp only [isLatin, Bool.and_eq_true, decide_eq_true_eq] at h
        have hlow : 97 ≤ c.toNat := h.1
        have hhigh : c.toNat ≤ 122 := h.2
        exact .inr (.inr (.inr ⟨hlow, hhigh⟩))

/-- A letter is no white space. -/
theorem not_space_of_latin {c : Char} (h : isLatin (foldCase c) = true) :
    isPatternSpace c = false ∧ isWhitespace c = false := by
  have hcases := toNat_of_latin h
  constructor
  · simp only [isPatternSpace, Bool.or_eq_false_iff, Bool.and_eq_false_iff, decide_eq_false_iff_not,
      beq_eq_false_iff_ne]
    omega
  · simp only [isWhitespace, Bool.or_eq_false_iff, Bool.and_eq_false_iff, decide_eq_false_iff_not,
      beq_eq_false_iff_ne]
    omega

variable {tables : WordTables} {before w after p v x y s : Text} {ms : List (Piece Char)} {c d : Char}

namespace Spellable

theorem head (h : Spellable w) : ∃ c d e rest, w = c :: d :: e :: rest ∧
    isLatin (foldCase c) = true ∧ isLatin (foldCase d) = true ∧ isLatin (foldCase e) = true := by
  obtain ⟨hlen, hall⟩ := h.letters
  match w, hlen with
  | c :: d :: e :: rest, _ =>
    exact ⟨c, d, e, rest, rfl, hall c (by simp), hall d (by simp), hall e (by simp)⟩

/-- What has its end in letters leaves no boundary before a letter. -/
theorem not_boundary (hp : EndsInLatin (p.map foldCase)) (hc : isLatin (foldCase c) = true) :
    tables.words.boundary (before ++ p) (c :: s) = false := by
  obtain ⟨hword, hmark, -⟩ := tables.letter c hc
  rw [WholeWords.boundary_word hword hmark,
    endsInWord_of_latin (by rw [List.map_append]; exact hp.append)]
  rfl

end Spellable

theorem whole_some {front : Text → Option Text} {new : String}
    (h : (whole front new).matchAt before s = some ms) :
    ∃ u, front s = some u ∧ ms = [.swapped u new.toList] ∧ u ≠ [] := by
  obtain ⟨u, hu, rfl⟩ := Option.map_eq_some_iff.mp (Rewrite.of_checked h)
  have hne := ((whole front new).matched h).1
  have htext : textOf [Piece.swapped u new.toList] = u := List.append_nil u
  exact ⟨u, hu, rfl, htext ▸ hne⟩

/-- A part without such characters. -/
theorem each_spares {accepts : Char → Bool} (new : String) (h : ∀ d ∈ c :: w, accepts d = false) :
    (each accepts new).Spares before (c :: w) after := by
  have hfront {s u : Text} (hu : (s.head?.bind fun d => if accepts d then some [d] else none) =
      some u) : ∃ d rest, s = d :: rest ∧ accepts d = true ∧ u = [d] := by
    obtain ⟨d, hd, hsome⟩ := Option.bind_eq_some_iff.mp hu
    obtain ⟨rest, rfl⟩ := List.head?_eq_some_iff.mp hd
    split at hsome
    next haccepts => exact ⟨d, rest, rfl, haccepts, (Option.some.inj hsome).symm⟩
    next => cases hsome
  apply Rewrite.Spares.of_tail
  · intro p v hpv hv
    cases hmatch : (each accepts new).matchAt (before ++ p) (v ++ after) with
    | none => rfl
    | some ms =>
      obtain ⟨u, hu, -, -⟩ := whole_some hmatch
      obtain ⟨d, rest, hd, haccepts, -⟩ := hfront hu
      obtain ⟨e, v, rfl⟩ := List.exists_cons_of_ne_nil hv
      obtain ⟨rfl, -⟩ := List.cons.inj hd
      rw [h e (hpv ▸ by simp)] at haccepts
      cases haccepts
  · intro x y ms _ hmatch
    obtain ⟨u, hu, rfl, -⟩ := whole_some hmatch
    obtain ⟨d, rest, -, -, rfl⟩ := hfront hu
    exact List.not_mem_nil

theorem takeWhile_all {accepts : Char → Bool} : ∀ d ∈ s.takeWhile accepts, accepts d = true :=
  fun _ hd => List.mem_takeWhile_imp hd

theorem number_some (h : (number tables).matchAt before s = some ms) :
    tables.words.boundary before s = true ∧ ∃ a b e rest last,
      s = a :: b :: e :: rest ∧ foldCase a = 'n' ∧ foldCase b = 'o' ∧ foldCase e = '.' ∧
        textOf ms = a :: b :: e :: last ∧
          ∀ d ∈ last, isPatternSpace d = true ∨ tables.isDecimal d = true := by
  have hfound := Rewrite.of_checked h
  dsimp only at hfound
  split at hfound
  next hmatch =>
    obtain ⟨hboundary, hfold, -⟩ := hmatch
    obtain rfl := Option.some.inj hfound
    rcases s with _ | ⟨a, _ | ⟨b, _ | ⟨e, rest⟩⟩⟩
    · cases hfold
    · cases (List.cons.inj hfold).2
    · cases (List.cons.inj (List.cons.inj hfold).2).2
    · obtain ⟨ha, hfold⟩ := List.cons.inj hfold
      obtain ⟨hb, hfold⟩ := List.cons.inj hfold
      refine ⟨hboundary, a, b, e, rest, rest.takeWhile isPatternSpace ++
        ((a :: b :: e :: rest).drop (3 + (rest.takeWhile isPatternSpace).length)).takeWhile
          tables.isDecimal, rfl, ha, hb, (List.cons.inj hfold).1, ?_, fun d hd => ?_⟩
      · simp [textOf, Piece.text, List.flatMap_cons, List.flatMap_map]
      · exact (List.mem_append.mp hd).imp (takeWhile_all d) (takeWhile_all d)
  next => cases hfound

theorem number_spares (h : Spellable (c :: w)) : (number tables).Spares before (c :: w) after := by
  obtain ⟨c', d, e, rest, hw, hlatin, -, -⟩ := h.head
  obtain ⟨rfl, -⟩ := List.cons.inj hw
  apply Rewrite.Spares.of_tail
  · intro p v hpv hv
    cases hmatch : (number tables).matchAt (before ++ p) (v ++ after) with
    | none => rfl
    | some ms =>
      obtain ⟨hboundary, a, b, e, rest, last, hsplit, ha, -⟩ := number_some hmatch
      obtain ⟨f, v, rfl⟩ := List.exists_cons_of_ne_nil hv
      obtain ⟨rfl, -⟩ := List.cons.inj hsplit
      have hends := h.number (p, f :: v) (hpv ▸ mem_cuts p (f :: v)) f rfl ha
      rw [List.cons_append, Spellable.not_boundary hends (by rw [ha]; decide)] at hboundary
      cases hboundary
  · intro x y ms _ hmatch hc
    obtain ⟨-, a, b, e, rest, last, -, -, hb, he, htext, hlast⟩ := number_some hmatch
    rw [htext, List.tail_cons] at hc
    rcases List.mem_cons.mp hc with rfl | hc
    · exact h.numberTail c rfl hb
    · rcases List.mem_cons.mp hc with rfl | hc
      · rw [he] at hlatin
        exact absurd hlatin (by decide)
      · rcases hlast c hc with hspace | hdecimal
        · cases hspace.symm.trans (not_space_of_latin hlatin).1
        · cases hdecimal.symm.trans (tables.letter c hlatin).2.2.1

theorem decimals_some {n : Nat} {u : Text} (h : decimals tables n s = some u) :
    u = s.take n ∧ u.length = n ∧ ∀ d ∈ u, tables.isDecimal d = true := by
  unfold decimals at h
  split at h
  next hall =>
    obtain rfl := Option.some.inj h
    exact ⟨rfl, hall.1, List.all_eq_true.mp hall.2⟩
  next => cases h

theorem date_some (h : (date tables).matchAt before s = some ms) :
    tables.words.boundary before s = true ∧ ∃ a b e rest last, s = a :: b :: e :: '.' :: rest ∧
      ('A' ≤ a ∧ a ≤ 'Z') ∧ textOf ms = a :: b :: e :: '.' :: last ∧
        ∀ d ∈ last, isPatternSpace d = true ∨ tables.isDecimal d = true := by
  have hfound := Rewrite.of_checked h
  dsimp only at hfound
  split at hfound
  next a b e rest =>
    split at hfound
    next hmatch =>
      obtain ⟨n, -, hday⟩ := List.exists_of_findSome?_eq_some hfound
      obtain ⟨day, hdecimals, hsome⟩ := Option.bind_eq_some_iff.mp hday
      split at hsome
      next =>
        obtain rfl := Option.some.inj hsome
        refine ⟨hmatch.1, a, b, e, rest, rest.takeWhile isPatternSpace ++ day, rfl,
          ⟨hmatch.2.1, hmatch.2.2.1⟩, ?_, fun d hd => ?_⟩
        · simp [textOf, Piece.text, List.flatMap_cons, List.flatMap_map]
        · exact (List.mem_append.mp hd).imp (takeWhile_all d) ((decimals_some hdecimals).2.2 d)
      next => cases hsome
    next => cases hfound
  next => cases hfound

theorem not_latin_dot {c : Char} (h : isLatin (foldCase c) = true) : c ≠ '.' := by
  rintro rfl
  exact absurd h (by decide)

theorem date_spares (h : Spellable (c :: w)) : (date tables).Spares before (c :: w) after := by
  obtain ⟨c', d, e, rest, hw, hc, hd, he⟩ := h.head
  obtain ⟨rfl, rfl⟩ := List.cons.inj hw
  have hdot {f : Char} (hf : f ∈ c :: d :: e :: rest) : f ≠ '.' := by
    rcases h.chars f hf with hlatin | rfl
    · exact not_latin_dot hlatin
    · decide
  constructor
  · intro p v ms hpv hv hmatch
    exfalso
    obtain ⟨hboundary, a, b, e', rest', last, hsplit, hupper, -⟩ := date_some hmatch
    obtain ⟨f, v, rfl⟩ := List.exists_cons_of_ne_nil hv
    obtain ⟨rfl, hbehind⟩ := List.cons.inj hsplit
    have hmem : f ∈ c :: d :: e :: rest := hpv ▸ by simp
    have hlatin : isLatin (foldCase f) = true := by
      refine (h.chars f hmem).resolve_right ?_
      rintro rfl
      exact absurd hupper.1 (by decide)
    rcases h.date (p, f :: v) (hpv ▸ mem_cuts p (f :: v)) f rfl hupper with hends | hlen
    · rw [List.cons_append, Spellable.not_boundary hends hlatin] at hboundary
      cases hboundary
    · match v, hlen with
      | v₁ :: v₂ :: v₃ :: v, _ =>
        obtain ⟨-, hbehind⟩ := List.cons.inj hbehind
        obtain ⟨-, hbehind⟩ := List.cons.inj hbehind
        obtain ⟨rfl, -⟩ := List.cons.inj hbehind
        exact hdot (f := '.') (hpv ▸ by simp) rfl
  · intro x y ms hbefore hy hmatch
    refine .inl ?_
    obtain ⟨-, a, b, e', rest', last, hsplit, -, htext, hlast⟩ := date_some hmatch
    obtain ⟨-, more, hmore⟩ := (date tables).matched hmatch
    rw [htext, List.append_assoc] at hmore
    rw [htext]
    -- a letter of the part cannot be in the place of the full stop, nor behind it
    match y, hy with
    | [_], _ => exact absurd (by simpa using hsplit : _ ∧ _ ∧ _ ∧ e = '.' ∧ _).2.2.2.1 (not_latin_dot he)
    | [_, _], _ => exact absurd (by simpa using hsplit : _ ∧ _ ∧ _ ∧ d = '.' ∧ _).2.2.2.1 (not_latin_dot hd)
    | [_, _, _], _ =>
      exact absurd (by simpa using hsplit : _ ∧ _ ∧ _ ∧ c = '.' ∧ _).2.2.2.1 (not_latin_dot hc)
    | y₁ :: y₂ :: y₃ :: y₄ :: y, _ =>
      simp only [List.cons_append, List.cons.injEq] at hmore
      obtain ⟨rfl, rfl, rfl, rfl, hmore⟩ := hmore
      rcases List.append_eq_append_iff.mp hmore with ⟨y', rfl, -⟩ | ⟨u, rfl, hu⟩
      · exact ⟨y', rfl⟩
      · cases u with
        | nil => exact ⟨[], by simp⟩
        | cons f u =>
          obtain ⟨rfl, -⟩ := List.cons.inj hu
          rcases hlast c (by simp) with hspace | hdecimal
          · cases hspace.symm.trans (not_space_of_latin hc).1
          · cases hdecimal.symm.trans (tables.letter c hc).2.2.1

/-- A character that stands before the two letters of a time. -/
def TimeChar (tables : WordTables) (c : Char) : Prop :=
  tables.isDecimal c = true ∨ c = ':' ∨ isPatternSpace c = true

theorem not_timeChar (hc : isLatin (foldCase c) = true) : ¬ TimeChar tables c := by
  rintro (hdecimal | rfl | hspace)
  · cases hdecimal.symm.trans (tables.letter c hc).2.2.1
  · exact absurd hc (by decide)
  · cases hspace.symm.trans (not_space_of_latin hc).1

theorem time_some {half new : String} (h : (time tables half new).matchAt before s = some ms) :
    ∃ front last more, s = front ++ last ++ more ∧ textOf ms = front ++ last ∧
      (∃ d ∈ front.head?, tables.isDecimal d = true) ∧ (∀ d ∈ front, TimeChar tables d) ∧
        last.map foldCase = half.toList ∧
          tables.words.boundary (before ++ (front ++ last)) more = true := by
  have hfound := Rewrite.of_checked h
  dsimp only at hfound
  split at hfound
  next =>
    obtain ⟨n, hn, hhours⟩ := List.exists_of_findSome?_eq_some hfound
    obtain ⟨hours, hdecimals, hbehind⟩ := Option.bind_eq_some_iff.mp hhours
    split at hbehind
    next rest hrest =>
      obtain ⟨minutes, hminutes, hsome⟩ := Option.bind_eq_some_iff.mp hbehind
      split at hsome
      next hlast =>
        obtain rfl := Option.some.inj hsome
        obtain ⟨hhoursEq, hlength, hall⟩ := decimals_some hdecimals
        obtain ⟨hminutesEq, -, hminutesAll⟩ := decimals_some hminutes
        set blanks := (rest.drop 2).takeWhile isPatternSpace with hblanks
        set last := (rest.drop (2 + blanks.length)).take 2 with hlastEq
        have hfront : s = hours ++ ':' :: rest := by
          rw [← hrest, hhoursEq, List.take_append_drop]
        have hdrop : rest.drop 2 = blanks ++ rest.drop (2 + blanks.length) := by
          have hsplit := List.takeWhile_append_dropWhile (p := isPatternSpace) (l := rest.drop 2)
          rw [← hblanks] at hsplit
          have htail := congrArg (List.drop blanks.length) hsplit
          rw [List.drop_left, List.drop_drop] at htail
          rw [← htail, hsplit]
        have hrestEq : rest = minutes ++ (blanks ++ (last ++ rest.drop (4 + blanks.length))) := by
          have hmore : rest.drop (2 + blanks.length) = last ++ rest.drop (4 + blanks.length) := by
            have hskip : rest.drop (4 + blanks.length) = (rest.drop (2 + blanks.length)).drop 2 := by
              rw [List.drop_drop]
              congr 1
              omega
            rw [hlastEq, hskip, List.take_append_drop]
          rw [← hmore, ← hdrop, hminutesEq, List.take_append_drop]
        have hhour : ∃ d ∈ hours.head?, tables.isDecimal d = true := by
          cases hours with
          | nil =>
            rcases List.mem_cons.mp hn with rfl | hn
            · cases hlength
            · cases List.mem_singleton.mp hn
              cases hlength
          | cons d hours => exact ⟨d, rfl, hall d List.mem_cons_self⟩
        refine ⟨hours ++ ':' :: minutes ++ blanks, last, rest.drop (4 + blanks.length), ?_, ?_, ?_, ?_,
          hlast.1, ?_⟩
        · rw [hfront]
          conv => lhs; rw [hrestEq]
          simp
        · simp [textOf, Piece.text, List.flatMap_cons, List.flatMap_map]
        · obtain ⟨d, hd, hdecimal⟩ := hhour
          refine ⟨d, ?_, hdecimal⟩
          rw [List.append_assoc, List.head?_append, Option.mem_def.mp hd]
          rfl
        · intro d hd
          simp only [List.mem_append, List.mem_cons] at hd
          rcases hd with (hd | rfl | hd) | hd
          · exact .inl (hall d hd)
          · exact .inr (.inl rfl)
          · exact .inl (hminutesAll d hd)
          · exact .inr (.inr (takeWhile_all d hd))
        · have hboundary := hlast.2
          simpa using hboundary
      next => cases hsome
    next => cases hbehind
  next => cases hfound

theorem time_spares (half new : String) (hlength : half.toList.length = 2) (h : Spellable (c :: w))
    (hhalf : ((c :: w).take 2).map foldCase ≠ half.toList) :
    (time tables half new).Spares before (c :: w) after := by
  obtain ⟨c', d, e, rest, hw, hc, hd, -⟩ := h.head
  obtain ⟨rfl, rfl⟩ := List.cons.inj hw
  constructor
  · intro p v ms hpv hv hmatch
    exfalso
    obtain ⟨front, last, more, hsplit, -, ⟨f, hf, hdecimal⟩, -⟩ := time_some hmatch
    obtain ⟨front, rfl⟩ := List.head?_eq_some_iff.mp hf
    obtain ⟨g, v, rfl⟩ := List.exists_cons_of_ne_nil hv
    obtain ⟨rfl, -⟩ := List.cons.inj hsplit
    rcases h.chars g (hpv ▸ by simp) with hlatin | rfl
    · cases hdecimal.symm.trans (tables.letter g hlatin).2.2.1
    · cases hdecimal.symm.trans tables.space.2.2
  · intro x y ms hbefore hy hmatch
    refine .inl ?_
    obtain ⟨front, last, more, hsplit, htext, -, hfront, hlast, hboundary⟩ := time_some hmatch
    obtain ⟨a, b, rfl⟩ : ∃ a b, last = [a, b] := by
      have hlen : last.length = 2 := by rw [← hlength, ← hlast, List.length_map]
      exact List.length_eq_two.mp hlen
    rw [htext]
    rw [List.append_assoc, List.append_assoc] at hsplit
    rcases List.append_eq_append_iff.mp hsplit with ⟨u, rfl, hu⟩ | ⟨u, rfl, hu⟩
    · -- the part begins behind the front of a match: none of it is there
      cases u with
      | nil =>
        simp only [List.cons_append, List.nil_append, List.cons.injEq] at hu
        obtain ⟨rfl, rfl, -⟩ := hu
        exact absurd hlast hhalf
      | cons f u =>
        simp only [List.cons_append, List.cons.injEq] at hu
        obtain ⟨rfl, -⟩ := hu
        exact absurd (hfront c (by simp)) (not_timeChar hc)
    · match u, hu with
      | [], hu =>
        simp only [List.cons_append, List.nil_append, List.cons.injEq] at hu
        obtain ⟨rfl, rfl, -⟩ := hu
        exact absurd hlast hhalf
      | [f], hu =>
        -- the last letter of the time is the first of the part, and no boundary comes behind it
        simp only [List.cons_append, List.nil_append, List.cons.injEq] at hu
        obtain ⟨rfl, rfl, rfl⟩ := hu
        have hends : EndsInLatin ((front ++ [a, b]).map foldCase) := by
          refine ⟨foldCase b, ?_, hc⟩
          simp
        rw [Spellable.not_boundary hends hd] at hboundary
        cases hboundary
      | f :: g :: u, hu =>
        simp only [List.cons_append, List.nil_append, List.cons.injEq] at hu
        obtain ⟨rfl, rfl, -⟩ := hu
        exact ⟨u, by simp⟩

theorem pause_some (h : pause.matchAt before s = some ms) : ∃ a b rest, s = a :: b :: rest ∧
    a ∈ ".!?".toList ∧ ms = [.kept a, .swapped [] "  ".toList, .kept b] := by
  have hfound := Rewrite.of_checked h
  split at hfound
  next a b rest =>
    split at hfound
    next hmatch => exact ⟨a, b, rest, rfl, hmatch.1, (Option.some.inj hfound).symm⟩
    next => cases hfound
  next => cases hfound

theorem pause_spares (h : Spellable (c :: w)) : pause.Spares before (c :: w) after := by
  constructor
  · intro p v ms hpv hv hmatch
    exfalso
    obtain ⟨a, b, rest, hsplit, ha, -⟩ := pause_some hmatch
    obtain ⟨g, v, rfl⟩ := List.exists_cons_of_ne_nil hv
    obtain ⟨rfl, -⟩ := List.cons.inj hsplit
    have hmark : ∀ f ∈ ".!?".toList, isLatin (foldCase f) = false ∧ f ≠ ' ' := by decide
    rcases h.chars g (hpv ▸ by simp) with hlatin | hspace
    · cases hlatin.symm.trans (hmark g ha).1
    · exact (hmark g ha).2 hspace
  · intro x y ms hbefore hy hmatch
    obtain ⟨a, b, rest, hsplit, -, rfl⟩ := pause_some hmatch
    match y, hy with
    | [f], _ =>
      simp only [List.cons_append, List.nil_append, List.cons.injEq] at hsplit
      obtain ⟨rfl, rfl, -⟩ := hsplit
      exact .inr ⟨[.kept f, .swapped [] "  ".toList], [c], w, rfl, rfl, rfl⟩
    | f :: g :: y, _ =>
      simp only [List.cons_append, List.cons.injEq] at hsplit
      obtain ⟨rfl, rfl, -⟩ := hsplit
      exact .inl ⟨y, rfl⟩

theorem spaces_some (h : spaces.matchAt before s = some ms) :
    textOf ms = s.takeWhile isPatternSpace ∧ s.takeWhile isPatternSpace ≠ [] ∧
      (s.takeWhile isPatternSpace = [' '] → ms = [.kept ' ']) := by
  have hne := (spaces.matched h).1
  have hfound := Rewrite.of_checked h
  dsimp only at hfound
  split at hfound
  next hsingle =>
    obtain rfl := Option.some.inj hfound
    exact ⟨hsingle.symm, hsingle ▸ List.cons_ne_nil _ _, fun _ => rfl⟩
  next hother =>
    obtain rfl := Option.some.inj hfound
    have htext : textOf [Piece.swapped (s.takeWhile isPatternSpace) [' ']] =
        s.takeWhile isPatternSpace := List.append_nil _
    rw [htext] at hne
    exact ⟨htext, hne, fun hsingle => absurd hsingle hother⟩

theorem spaces_spares (h : Spellable (c :: w)) : spaces.Spares before (c :: w) after := by
  obtain ⟨c', d, e, rest, hw, hc, -, -⟩ := h.head
  obtain ⟨rfl, -⟩ := List.cons.inj hw
  have hnot := (not_space_of_latin hc).1
  constructor
  · intro p v ms hpv hv hmatch
    obtain ⟨-, hne, hsingle⟩ := spaces_some hmatch
    obtain ⟨f, v, rfl⟩ := List.exists_cons_of_ne_nil hv
    rcases h.chars f (hpv ▸ by simp) with hlatin | rfl
    · rw [List.cons_append, List.takeWhile_cons_of_neg (by rw [(not_space_of_latin hlatin).1]; decide)]
        at hne
      exact absurd rfl hne
    · obtain ⟨-, g, hg, hlatin⟩ := h.spaces (p, ' ' :: v) (hpv ▸ mem_cuts p (' ' :: v)) ' ' rfl rfl
      obtain ⟨v, rfl⟩ := List.head?_eq_some_iff.mp hg
      refine ⟨[' '], g :: v, rfl, hsingle ?_⟩
      rw [List.cons_append, List.takeWhile_cons_of_pos (by decide), List.cons_append,
        List.takeWhile_cons_of_neg (by rw [(not_space_of_latin hlatin).1]; decide)]
  · intro x y ms hbefore hy hmatch
    obtain ⟨htext, -, -⟩ := spaces_some hmatch
    have hprefix := (spaces.matched hmatch).2
    rw [List.append_assoc] at hprefix
    rcases List.append_eq_append_iff.mp hprefix.choose_spec with ⟨y', hy', -⟩ | ⟨u, hu, hw⟩
    · exact .inl ⟨y', hy'⟩
    · cases u with
      | nil => exact .inl ⟨[], by rw [hu, List.append_nil, List.append_nil]⟩
      | cons f u =>
        simp only [List.cons_append, List.cons.injEq] at hw
        obtain ⟨rfl, -⟩ := hw
        have hblank : c ∈ (y ++ c :: w ++ after).takeWhile isPatternSpace := by
          rw [← htext, hu]
          simp
        cases hnot.symm.trans (takeWhile_all c hblank)

theorem trimEnds_some (h : trimEnds.matchAt before s = some ms) : ∃ d rest, s = d :: rest ∧
    isWhitespace d = true ∧ (isBlank before = true ∨ isBlank rest = true) ∧ ms = [.swapped [d] []] := by
  have hfound := Rewrite.of_checked h
  split at hfound
  next d rest =>
    split at hfound
    next hblank => exact ⟨d, rest, rfl, hblank.1, hblank.2, (Option.some.inj hfound).symm⟩
    next => cases hfound
  next => cases hfound

theorem not_isBlank {s : Text} (hc : isWhitespace c = false) (hmem : c ∈ s) : isBlank s = false := by
  cases hblank : isBlank s with
  | false => rfl
  | true => cases hc.symm.trans (List.all_eq_true.mp hblank c hmem)

theorem trimEnds_spares (h : Spellable (c :: w)) : trimEnds.Spares before (c :: w) after := by
  obtain ⟨c', d, e, rest, hw, hc, -, -⟩ := h.head
  obtain ⟨rfl, -⟩ := List.cons.inj hw
  constructor
  · intro p v ms hpv hv hmatch
    exfalso
    obtain ⟨f, more, hsplit, hwhite, hblank, -⟩ := trimEnds_some hmatch
    obtain ⟨g, v, rfl⟩ := List.exists_cons_of_ne_nil hv
    obtain ⟨rfl, rfl⟩ := List.cons.inj hsplit
    rcases h.chars g (hpv ▸ by simp) with hlatin | rfl
    · cases hwhite.symm.trans (not_space_of_latin hlatin).2
    · -- a space in the part has letters before it and behind it
      obtain ⟨hp, g, hg, hlatin⟩ := h.spaces (p, ' ' :: v) (hpv ▸ mem_cuts p (' ' :: v)) ' ' rfl rfl
      obtain ⟨v, rfl⟩ := List.head?_eq_some_iff.mp hg
      obtain ⟨f, p, rfl⟩ := List.exists_cons_of_ne_nil hp
      obtain ⟨rfl, -⟩ := List.cons.inj hpv
      rcases hblank with hbefore | hbehind
      · cases hbefore.symm.trans (not_isBlank (not_space_of_latin hc).2 (by simp))
      · cases hbehind.symm.trans (not_isBlank (not_space_of_latin hlatin).2 (by simp))
  · intro x y ms hbefore hy hmatch
    obtain ⟨f, more, hsplit, -, -, rfl⟩ := trimEnds_some hmatch
    obtain ⟨g, y, rfl⟩ := List.exists_cons_of_ne_nil hy
    obtain ⟨rfl, -⟩ := List.cons.inj hsplit
    exact .inl ⟨y, rfl⟩

theorem trimEnds_cut (hwhite : isWhitespace c = true)
    (hblank : isBlank before = true ∨ isBlank s = true) :
    resultOf (trimEnds.cutFrom before 0 (c :: s)) = resultOf (trimEnds.cutFrom (before ++ [c]) 0 s) := by
  have hmatch : trimEnds.matchAt before (c :: s) = some [.swapped [c] []] := by
    simp [trimEnds, Rewrite.checked, hwhite, hblank, textOf, Piece.text]
  have hcut := congrArg resultOf (@Rewrite.cutFrom_match _ trimEnds before s [.swapped [c] []] hmatch)
  rwa [resultOf_append] at hcut

theorem trimEnds_kept (h : ¬ (isWhitespace c = true ∧ (isBlank before = true ∨ isBlank s = true))) :
    resultOf (trimEnds.cutFrom before 0 (c :: s)) =
      c :: resultOf (trimEnds.cutFrom (before ++ [c]) 0 s) := by
  have hmatch : trimEnds.matchAt before (c :: s) = none := by
    simp [trimEnds, Rewrite.checked, h]
  exact congrArg resultOf (Rewrite.cutFrom_kept hmatch)

theorem trimEnd_cons (c : Char) (s : Text) : ((c :: s).reverse.dropWhile isWhitespace).reverse =
    if isWhitespace c = true ∧ isBlank s = true then []
    else c :: (s.reverse.dropWhile isWhitespace).reverse := by
  have hempty : (s.reverse.dropWhile isWhitespace).isEmpty = isBlank s := by
    rw [Bool.eq_iff_iff, List.isEmpty_iff, List.dropWhile_eq_nil_iff, isBlank, List.all_eq_true]
    exact forall_congr' fun d => by rw [List.mem_reverse]
  rw [List.reverse_cons, List.dropWhile_append, hempty]
  split
  next hblank =>
    have hnil : s.reverse.dropWhile isWhitespace = [] := by rwa [← List.isEmpty_iff, hempty]
    by_cases hwhite : isWhitespace c = true
    · rw [if_pos ⟨hwhite, hblank⟩, List.dropWhile_cons_of_pos hwhite]
      rfl
    · rw [if_neg fun h => hwhite h.1, List.dropWhile_cons_of_neg hwhite, hnil]
      rfl
  next hblank =>
    rw [if_neg fun h => hblank h.2, List.reverse_append]
    rfl

/-- Behind what is not blank, the white space at the end is removed. -/
theorem trimEnds_behind (hbefore : isBlank before = false) :
    resultOf (trimEnds.cutFrom before 0 s) = (s.reverse.dropWhile isWhitespace).reverse := by
  induction s generalizing before with
  | nil => rfl
  | cons c s ih =>
    have hmore : isBlank (before ++ [c]) = false := by
      rw [isBlank, List.all_append, ← isBlank, hbefore, Bool.false_and]
    rw [trimEnd_cons]
    split
    next hblank =>
      have hnil : s.reverse.dropWhile isWhitespace = [] :=
        List.dropWhile_eq_nil_iff.mpr fun d hd =>
          List.all_eq_true.mp hblank.2 d (List.mem_reverse.mp hd)
      rw [trimEnds_cut hblank.1 (.inr hblank.2), ih hmore, hnil]
      rfl
    next hblank =>
      rw [trimEnds_kept, ih hmore]
      rw [hbefore]
      exact fun h => hblank ⟨h.1, h.2.resolve_left Bool.false_ne_true⟩

theorem trimEnds_front (hbefore : isBlank before = true) :
    resultOf (trimEnds.cutFrom before 0 s) = trim s := by
  induction s generalizing before with
  | nil => rfl
  | cons c s ih =>
    by_cases hwhite : isWhitespace c = true
    · have hmore : isBlank (before ++ [c]) = true := by
        rw [isBlank, List.all_append, ← isBlank, hbefore, Bool.true_and, List.all_cons, hwhite]
        rfl
      rw [trimEnds_cut hwhite (.inl hbefore), ih hmore, trim, trim, List.dropWhile_cons_of_pos hwhite]
    · have hmore : isBlank (before ++ [c]) = false :=
        not_isBlank (Bool.eq_false_iff.mpr hwhite) (by simp)
      rw [trimEnds_kept fun h => hwhite h.1, trimEnds_behind hmore, trim,
        List.dropWhile_cons_of_neg hwhite, trimEnd_cons, if_neg fun h => hwhite h.1]

/-- The last rule is `trim`. -/
theorem trimEnds_apply (s : Text) : trimEnds.apply s = trim s := trimEnds_front rfl

theorem spelling_spares (h : Spellable w) :
    ∀ r ∈ spelling tables ++ [trimEnds], ∀ before after, r.Spares before w after := by
  obtain ⟨c, d, e, rest, rfl, -⟩ := h.head
  have hmark {m : Char} (hm : isLatin (foldCase m) = false ∧ m ≠ ' ') (new : String)
      (before after : Text) : (each (· == m) new).Spares before (c :: d :: e :: rest) after := by
    refine each_spares new fun f hf => beq_eq_false_iff_ne.mpr ?_
    rintro rfl
    rcases h.chars f hf with hlatin | hspace
    · cases hm.1.symm.trans hlatin
    · exact hm.2 hspace
  intro r hr before after
  simp only [spelling, List.cons_append, List.nil_append, List.mem_cons, List.not_mem_nil,
    or_false] at hr
  rcases hr with rfl | rfl | rfl | rfl | rfl | rfl | rfl | rfl | rfl | rfl | rfl | rfl | rfl | rfl |
    rfl | rfl | rfl | rfl | rfl
  · exact number_spares h
  · exact hmark (by decide) _ before after
  · exact hmark (by decide) _ before after
  · exact hmark (by decide) _ before after
  · exact hmark (by decide) _ before after
  · exact hmark (by decide) _ before after
  · exact hmark (by decide) _ before after
  · exact hmark (by decide) _ before after
  · exact hmark (by decide) _ before after
  · exact hmark (by decide) _ before after
  · exact hmark (by decide) _ before after
  · exact hmark (by decide) _ before after
  · exact hmark (by decide) _ before after
  · exact date_spares h
  · exact time_spares "am" " A M" rfl h h.time.1
  · exact time_spares "pm" " P M" rfl h h.time.2
  · exact pause_spares h
  · exact spaces_spares h
  · exact trimEnds_spares h

/-- What the table puts in for a word is still there in the end. -/
theorem survives_spelling (h : Spellable w) :
    Survives Rewrite.Cuts (spelling tables ++ [trimEnds]) before w after :=
  Rewrite.survives_of_spares (spelling_spares h)

end HeyNilo
