import HeyNilo.Machine
import HeyNilo.MemoryRecords

namespace HeyNilo

section Lists

variable {α : Type*}

theorem removeAll_cases (p : α → Bool) (xs : List α) :
    (∀ x ∈ xs, p x = false) ∧ removeAll p xs = none ∨
      ∃ x ∈ xs, p x = true ∧ removeAll p xs = some (xs.filter fun y => !p y) := by
  cases hany : xs.any p with
  | false =>
    have hnone : ∀ x ∈ xs, p x = false := by simpa using hany
    exact .inl ⟨hnone, by simp [removeAll, hany]⟩
  | true =>
    obtain ⟨x, hx, hp⟩ := List.any_eq_true.mp hany
    exact .inr ⟨x, hx, hp, by simp [removeAll, hany]⟩

/-- What comes before the entry it replaces has no such entry. -/
theorem updateFirst_cases (p : α → Bool) (f : α → α) (xs : List α) :
    (∀ x ∈ xs, p x = false) ∧ updateFirst p f xs = none ∨
      ∃ before x after, xs = before ++ x :: after ∧ (∀ y ∈ before, p y = false) ∧ p x = true ∧
        updateFirst p f xs = some (before ++ f x :: after) := by
  induction xs with
  | nil => exact .inl ⟨by simp, rfl⟩
  | cons x xs ih =>
    cases hx : p x with
    | true => exact .inr ⟨[], x, xs, rfl, by simp, hx, by simp [updateFirst, hx]⟩
    | false =>
      rcases ih with ⟨hnone, hxs⟩ | ⟨before, y, after, rfl, hbefore, hy, hxs⟩
      · exact .inl ⟨by simpa [hx] using hnone, by simp [updateFirst, hx, hxs]⟩
      · refine .inr ⟨x :: before, y, after, rfl, ?_, hy, by simp [updateFirst, hx, hxs]⟩
        simpa [hx] using hbefore

end Lists

namespace Relationships

open Machine

variable {r : Relationships} {c : RelationshipCategory} {id : String} {x : Relationship}

def addRelationship (r : Relationships) (relationship : Relationship) : Relationships :=
  match relationship.category with
  | .family => { r with family := r.family ++ [relationship] }
  | .friend => { r with friends := r.friends ++ [relationship] }
  | .colleague => { r with colleagues := r.colleagues ++ [relationship] }
  | .important => { r with importantPeople := r.importantPeople ++ [relationship] }

def findById (r : Relationships) (id : String) : Option Relationship :=
  r.getAll.find? fun x => x.id == id

def getCount (r : Relationships) : Nat :=
  r.family.length + r.friends.length + r.colleagues.length + r.importantPeople.length

/-- The chain of `||` ends at the first list that loses an entry. -/
def removeById (r : Relationships) (id : String) : Bool × Relationships :=
  match removeAll (fun x => x.id == id) r.family with
  | some xs => (true, { r with family := xs })
  | none =>
    match removeAll (fun x => x.id == id) r.friends with
    | some xs => (true, { r with friends := xs })
    | none =>
      match removeAll (fun x => x.id == id) r.colleagues with
      | some xs => (true, { r with colleagues := xs })
      | none =>
        match removeAll (fun x => x.id == id) r.importantPeople with
        | some xs => (true, { r with importantPeople := xs })
        | none => (false, r)

/-- The entry is replaced where it stands. -/
def updateById (r : Relationships) (id : String) (updates : RelationshipUpdates) :
    Bool × Relationships :=
  match updateFirst (fun x => x.id == id) (fun x => x.updated updates) r.family with
  | some xs => (true, { r with family := xs })
  | none =>
    match updateFirst (fun x => x.id == id) (fun x => x.updated updates) r.friends with
    | some xs => (true, { r with friends := xs })
    | none =>
      match updateFirst (fun x => x.id == id) (fun x => x.updated updates) r.colleagues with
      | some xs => (true, { r with colleagues := xs })
      | none =>
        match updateFirst (fun x => x.id == id) (fun x => x.updated updates) r.importantPeople with
        | some xs => (true, { r with importantPeople := xs })
        | none => (false, r)

inductive Op where
  | addRelationship (relationship : Relationship)
  | updateById (id : String) (updates : RelationshipUpdates)
  | removeById (id : String)
deriving DecidableEq, Repr

def step (r : Relationships) : Op → Option Relationships
  | .addRelationship relationship => some (r.addRelationship relationship)
  | .updateById id updates => some (r.updateById id updates).2
  | .removeById id => some (r.removeById id).2

/-- The list that `addRelationship` puts an entry of this category in. -/
def inCategory (r : Relationships) : RelationshipCategory → List Relationship
  | .family => r.family
  | .friend => r.friends
  | .colleague => r.colleagues
  | .important => r.importantPeople

def withCategory (r : Relationships) (c : RelationshipCategory) (xs : List Relationship) :
    Relationships :=
  match c with
  | .family => { r with family := xs }
  | .friend => { r with friends := xs }
  | .colleague => { r with colleagues := xs }
  | .important => { r with importantPeople := xs }

/-- Every entry is in the list of its own category. -/
def Filed (r : Relationships) : Prop := ∀ c, ∀ x ∈ r.inCategory c, x.category = c

/-- A removal leaves no entry with the id, and reports whether there is now one fewer. -/
def RemovesEvery (r : Relationships) : Op → Prop
  | .removeById id =>
    (∀ x ∈ (r.removeById id).2.getAll, x.id ≠ id) ∧
      ((r.removeById id).1 = true ↔ (r.removeById id).2.getCount < r.getCount)
  | _ => True

/-- An update leaves the entry it finds in its category; the entries that a removal is to remove are
of one category. -/
def Stays (r : Relationships) : Op → Prop
  | .addRelationship _ => True
  | .updateById id updates =>
    ∀ x, r.findById id = some x → (x.updated updates).category = x.category
  | .removeById id =>
    ∀ x ∈ r.getAll, ∀ y ∈ r.getAll, x.id = id → y.id = id → x.category = y.category

theorem mem_getAll : x ∈ r.getAll ↔ ∃ c, x ∈ r.inCategory c := by
  constructor
  · intro h
    simp only [getAll, List.mem_append] at h
    rcases h with ((h | h) | h) | h
    · exact ⟨.family, h⟩
    · exact ⟨.friend, h⟩
    · exact ⟨.colleague, h⟩
    · exact ⟨.important, h⟩
  · rintro ⟨c, h⟩
    simp only [getAll, List.mem_append]
    cases c with
    | family => exact .inl (.inl (.inl h))
    | friend => exact .inl (.inl (.inr h))
    | colleague => exact .inl (.inr h)
    | important => exact .inr h

@[simp]
theorem inCategory_withCategory (r : Relationships) (c d : RelationshipCategory)
    (xs : List Relationship) :
    (r.withCategory c xs).inCategory d = if d = c then xs else r.inCategory d := by
  cases c <;> cases d <;> rfl

theorem getCount_withCategory (r : Relationships) (c : RelationshipCategory)
    (xs : List Relationship) :
    (r.withCategory c xs).getCount + (r.inCategory c).length = r.getCount + xs.length := by
  cases c <;> simp only [withCategory, inCategory, getCount] <;> omega

theorem addRelationship_eq (r : Relationships) (x : Relationship) :
    r.addRelationship x = r.withCategory x.category (r.inCategory x.category ++ [x]) := by
  unfold addRelationship
  cases x.category <;> rfl

/-- Removed from the first list that has the id. -/
theorem removeById_cases (r : Relationships) (id : String) :
    (∀ x ∈ r.getAll, x.id ≠ id) ∧ r.removeById id = (false, r) ∨
      ∃ c, ∃ x ∈ r.inCategory c, x.id = id ∧
        r.removeById id =
          (true, r.withCategory c ((r.inCategory c).filter fun y => !(y.id == id))) := by
  unfold removeById
  rcases removeAll_cases (fun x => x.id == id) r.family with ⟨hfamily, h⟩ | ⟨x, hx, hid, h⟩
  case inr => exact .inr ⟨.family, x, hx, by simpa using hid, by rw [h]; rfl⟩
  rw [h]
  rcases removeAll_cases (fun x => x.id == id) r.friends with ⟨hfriends, h⟩ | ⟨x, hx, hid, h⟩
  case inr => exact .inr ⟨.friend, x, hx, by simpa using hid, by rw [h]; rfl⟩
  rw [h]
  rcases removeAll_cases (fun x => x.id == id) r.colleagues with ⟨hcolleagues, h⟩ | ⟨x, hx, hid, h⟩
  case inr => exact .inr ⟨.colleague, x, hx, by simpa using hid, by rw [h]; rfl⟩
  rw [h]
  rcases removeAll_cases (fun x => x.id == id) r.importantPeople with
    ⟨himportant, h⟩ | ⟨x, hx, hid, h⟩
  case inr => exact .inr ⟨.important, x, hx, by simpa using hid, by rw [h]; rfl⟩
  rw [h]
  refine .inl ⟨fun x hx => ?_, rfl⟩
  obtain ⟨c, hx⟩ := mem_getAll.mp hx
  cases c with
  | family => simpa using hfamily x hx
  | friend => simpa using hfriends x hx
  | colleague => simpa using hcolleagues x hx
  | important => simpa using himportant x hx

theorem find_id {before after : List Relationship} (h : ∀ y ∈ before, (y.id == id) = false)
    (hx : (x.id == id) = true) (more : List Relationship) :
    ((before ++ x :: after) ++ more).find? (fun y => y.id == id) = some x := by
  have hbefore : before.find? (fun y => y.id == id) = none :=
    List.find?_eq_none.mpr fun y hy => by simp [h y hy]
  simp [List.find?_append, hbefore, hx]

/-- Updated in the first list that has the id: the entry that `findById` returns. -/
theorem updateById_cases (r : Relationships) (id : String) (updates : RelationshipUpdates) :
    (∀ x ∈ r.getAll, x.id ≠ id) ∧ r.updateById id updates = (false, r) ∨
      ∃ c before x after, r.inCategory c = before ++ x :: after ∧ r.findById id = some x ∧
        r.updateById id updates =
          (true, r.withCategory c (before ++ x.updated updates :: after)) := by
  have hnone {xs : List Relationship} (h : ∀ y ∈ xs, (y.id == id) = false) :
      xs.find? (fun y => y.id == id) = none := List.find?_eq_none.mpr fun y hy => by simp [h y hy]
  unfold updateById
  rcases updateFirst_cases (fun x => x.id == id) (fun x => x.updated updates) r.family with
    ⟨hfamily, h⟩ | ⟨before, x, after, hlist, hbefore, hx, h⟩
  case inr =>
    refine .inr ⟨.family, before, x, after, hlist, ?_, by rw [h]; rfl⟩
    rw [findById, getAll, List.append_assoc, List.append_assoc, hlist]
    exact find_id hbefore hx _
  rw [h]
  rcases updateFirst_cases (fun x => x.id == id) (fun x => x.updated updates) r.friends with
    ⟨hfriends, h⟩ | ⟨before, x, after, hlist, hbefore, hx, h⟩
  case inr =>
    refine .inr ⟨.friend, before, x, after, hlist, ?_, by rw [h]; rfl⟩
    rw [findById, getAll, List.append_assoc, List.append_assoc, List.find?_append, hnone hfamily,
      Option.none_or, hlist]
    exact find_id hbefore hx _
  rw [h]
  rcases updateFirst_cases (fun x => x.id == id) (fun x => x.updated updates) r.colleagues with
    ⟨hcolleagues, h⟩ | ⟨before, x, after, hlist, hbefore, hx, h⟩
  case inr =>
    refine .inr ⟨.colleague, before, x, after, hlist, ?_, by rw [h]; rfl⟩
    rw [findById, getAll, List.append_assoc, List.append_assoc, List.find?_append, hnone hfamily,
      Option.none_or, List.find?_append, hnone hfriends, Option.none_or, hlist]
    exact find_id hbefore hx _
  rw [h]
  rcases updateFirst_cases (fun x => x.id == id) (fun x => x.updated updates) r.importantPeople with
    ⟨himportant, h⟩ | ⟨before, x, after, hlist, hbefore, hx, h⟩
  case inr =>
    refine .inr ⟨.important, before, x, after, hlist, ?_, by rw [h]; rfl⟩
    rw [findById, getAll, List.append_assoc, List.append_assoc, List.find?_append, hnone hfamily,
      Option.none_or, List.find?_append, hnone hfriends, Option.none_or, List.find?_append,
      hnone hcolleagues, Option.none_or, hlist, ← List.append_nil (before ++ x :: after)]
    exact find_id hbefore hx _
  rw [h]
  refine .inl ⟨fun x hx => ?_, rfl⟩
  obtain ⟨c, hx⟩ := mem_getAll.mp hx
  cases c with
  | family => simpa using hfamily x hx
  | friend => simpa using hfriends x hx
  | colleague => simpa using hcolleagues x hx
  | important => simpa using himportant x hx

theorem filed_addRelationship (h : r.Filed) (x : Relationship) : (r.addRelationship x).Filed := by
  intro c y hy
  rw [addRelationship_eq, inCategory_withCategory] at hy
  by_cases hc : c = x.category
  · subst c
    rw [if_pos rfl, List.mem_append, List.mem_singleton] at hy
    rcases hy with hy | rfl
    · exact h _ y hy
    · rfl
  · rw [if_neg hc] at hy
    exact h c y hy

theorem filed_updateById_iff (h : r.Filed) (id : String) (updates : RelationshipUpdates) :
    (r.updateById id updates).2.Filed ↔ r.Stays (.updateById id updates) := by
  rcases r.updateById_cases id updates with ⟨hnone, heq⟩ | ⟨c, before, x, after, hlist, hfind, heq⟩
  · have hfind : r.findById id = none := List.find?_eq_none.mpr fun x hx => by simp [hnone x hx]
    simp [Stays, heq, h, hfind]
  · have hc : x.category = c := h c x (by simp [hlist])
    rw [heq]
    constructor
    · intro hfiled y hy
      cases Option.some.inj (hfind.symm.trans hy)
      have hupdated := hfiled c (x.updated updates) (by simp)
      exact hupdated.trans hc.symm
    · intro hstays d y hy
      rw [inCategory_withCategory] at hy
      by_cases hd : d = c
      · subst d
        rw [if_pos rfl, List.mem_append, List.mem_cons] at hy
        rcases hy with hy | rfl | hy
        · exact h c y (by simp [hlist, hy])
        · exact (hstays x hfind).trans hc
        · exact h c y (by simp [hlist, hy])
      · rw [if_neg hd] at hy
        exact h d y hy

theorem filed_removeById (h : r.Filed) (id : String) : (r.removeById id).2.Filed := by
  rcases r.removeById_cases id with ⟨_, heq⟩ | ⟨c, x, hx, hid, heq⟩
  · rw [heq]
    exact h
  · rw [heq]
    intro d y hy
    rw [inCategory_withCategory] at hy
    by_cases hd : d = c
    · subst d
      rw [if_pos rfl] at hy
      exact h c y (List.mem_filter.mp hy).1
    · rw [if_neg hd] at hy
      exact h d y hy

/-- The result is right even where entries with the id are left in other lists. -/
theorem removeById_reports (r : Relationships) (id : String) :
    (r.removeById id).1 = true ↔ (r.removeById id).2.getCount < r.getCount := by
  rcases r.removeById_cases id with ⟨_, heq⟩ | ⟨c, x, hx, hid, heq⟩
  · simp [heq]
  · have hcount := r.getCount_withCategory c ((r.inCategory c).filter fun y => !(y.id == id))
    have hfewer : ((r.inCategory c).filter fun y => !(y.id == id)).length <
        (r.inCategory c).length :=
      List.length_filter_lt_length_iff_exists.mpr ⟨x, hx, by simp [hid]⟩
    simp only [heq, true_iff]
    omega

theorem removes_every_iff (h : r.Filed) (id : String) :
    (∀ x ∈ (r.removeById id).2.getAll, x.id ≠ id) ↔ r.Stays (.removeById id) := by
  rcases r.removeById_cases id with ⟨hnone, heq⟩ | ⟨c, x, hx, hid, heq⟩
  · rw [heq]
    exact ⟨fun _ y hy _ _ hyid => absurd hyid (hnone y hy), fun _ => hnone⟩
  · have hc : x.category = c := h c x hx
    rw [heq]
    constructor
    · intro hgone
      have hkind (y : Relationship) (hy : y ∈ r.getAll) (hyid : y.id = id) : y.category = c := by
        obtain ⟨d, hd⟩ := mem_getAll.mp hy
        by_contra hne
        have hdc : d ≠ c := fun heq => hne (heq ▸ h d y hd)
        have hleft : y ∈ (r.withCategory c
            ((r.inCategory c).filter fun y => !(y.id == id))).getAll :=
          mem_getAll.mpr ⟨d, by rw [inCategory_withCategory, if_neg hdc]; exact hd⟩
        exact hgone y hleft hyid
      intro y hy z hz hyid hzid
      exact (hkind y hy hyid).trans (hkind z hz hzid).symm
    · intro hstays y hy hyid
      obtain ⟨d, hd⟩ := mem_getAll.mp hy
      rw [inCategory_withCategory] at hd
      by_cases hdc : d = c
      · rw [if_pos hdc] at hd
        simp [hyid] at hd
      · rw [if_neg hdc] at hd
        have hsame := hstays x (mem_getAll.mpr ⟨c, hx⟩) y (mem_getAll.mpr ⟨d, hd⟩) hid hyid
        exact hdc ((h d y hd).symm.trans (hsame.symm.trans hc))

theorem filed_step (h : r.Filed) {op : Op} (hstays : r.Stays op) {t : Relationships}
    (ht : r.step op = some t) : t.Filed := by
  cases op with
  | addRelationship x =>
    cases ht
    exact filed_addRelationship h x
  | updateById id updates =>
    cases ht
    exact (filed_updateById_iff h id updates).mpr hstays
  | removeById id =>
    cases ht
    exact filed_removeById h id

theorem step_specified_iff (h : r.Filed) (op : Op) :
    r.RemovesEvery op ∧ (∀ t, r.step op = some t → t.Filed) ↔ r.Stays op := by
  constructor
  · rintro ⟨hremoves, hfiled⟩
    cases op with
    | addRelationship x => trivial
    | updateById id updates => exact (filed_updateById_iff h id updates).mp (hfiled _ rfl)
    | removeById id => exact (removes_every_iff h id).mp hremoves.1
  · intro hstays
    refine ⟨?_, fun t ht => filed_step h hstays ht⟩
    cases op with
    | addRelationship x => trivial
    | updateById id updates => trivial
    | removeById id => exact ⟨(removes_every_iff h id).mpr hstays, r.removeById_reports id⟩

theorem filed_empty : ({} : Relationships).Filed := by
  intro c x hx
  cases c <;> cases hx

/-- Over every sequence of calls from the empty container. -/
theorem filed_and_removed_iff (ops : List Op) :
    Always step Filed {} ops ∧ Meets step RemovesEvery {} ops ↔ Meets step Stays {} ops := by
  have htotal (s : Relationships) (op : Op) : ∃ t, s.step op = some t := by
    cases op <;> exact ⟨_, rfl⟩
  obtain ⟨u, hrun⟩ := run_total htotal {} ops
  rw [always_and_meets_iff filed_empty]
  apply meets_iff_meets (fun s op t hs hok ht => filed_step hs hok ht) _ filed_empty hrun
  intro s op t hs _
  exact step_specified_iff hs op

/-- A buddy who becomes the boss is still among the friends; of two entries with one id, in two
lists, a removal leaves the second. -/
theorem boss_among_friends :
    (¬ ∀ ops, Always step Filed {} ops) ∧ ¬ ∀ ops, Meets step RemovesEvery {} ops := by
  let rohan : Relationship := { id := "rel_1", relation := some "buddy", name := some "Rohan" }
  let priya : Relationship := { id := "rel_1", relation := some "mother", name := some "Priya" }
  constructor
  · intro h
    have hfiled := always_run (h [.addRelationship rohan,
      .updateById "rel_1" { relation := some "boss" }]) rfl
    have hcategory := hfiled .friend { rohan with relation := some "boss" } (by decide)
    revert hcategory
    decide
  · intro h
    have hremoves := (h [.addRelationship rohan, .addRelationship priya, .removeById "rel_1"]).2 _ rfl
    have hgone := ((hremoves.2 _ rfl).1).1 rohan (by decide)
    exact hgone rfl

end Relationships

end HeyNilo
