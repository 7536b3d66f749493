import HeyNilo.GsonText
import HeyNilo.StableGrouping

namespace HeyNilo

/-- The order in which `getAll` lists the categories. -/
def RelationshipCategory.rank : RelationshipCategory → Nat
  | .family => 0
  | .friend => 1
  | .colleague => 2
  | .important => 3

def RelationshipCategory.order : List RelationshipCategory :=
  [.family, .friend, .colleague, .important]

theorem RelationshipCategory.rank_injective (b c : RelationshipCategory) (h : b.rank = c.rank) :
    b = c := by
  cases b <;> cases c <;> first | rfl | cases h

theorem RelationshipCategory.mem_order (c : RelationshipCategory) : c ∈ order := by
  cases c <;> decide

namespace MemoryManager

open StableGrouping

variable {gson : Gson} {s : MemoryManager} {now : String} {outcome : JsonFile.WriteOutcome}

/-- A container that Gson reads back as it was. -/
def RoundTrips (gson : Gson) (r : Relationships) : Prop :=
  gson.relationships.fromJson (gson.relationships.toJson r) = .value r

/-- The manager of a new process after `saveRelationships` of this one. -/
def reload (gson : Gson) (s : MemoryManager) (now : String) (outcome : JsonFile.WriteOutcome) :
    MemoryManager :=
  initializeFrom gson (s.saveRelationships gson now outcome).2.files

theorem saveRelationships_ok (gson : Gson) (s : MemoryManager) (now : String) :
    (s.saveRelationships gson now .ok).1 = true := rfl

theorem relationshipsRecord_getAll (now : String) (rs : List Relationship) :
    (relationshipsRecord now rs).getAll = group Relationship.category RelationshipCategory.order rs := by
  simp [relationshipsRecord, Relationships.getAll, group, RelationshipCategory.order]

/-- The reloaded list is saved as the same container. -/
theorem relationshipsRecord_group (now : String) (rs : List Relationship) :
    relationshipsRecord now (group Relationship.category RelationshipCategory.order rs) =
      relationshipsRecord now rs := by
  have hnodup : RelationshipCategory.order.Nodup := by decide
  have hfilter (c : RelationshipCategory) :
      ((group Relationship.category RelationshipCategory.order rs).filter fun r => r.category == c) =
        rs.filter fun r => r.category == c := filter_group hnodup c.mem_order rs
  simp [relationshipsRecord, hfilter]

theorem reload_relationships (hsaved : (s.saveRelationships gson now outcome).1 = true)
    (hgson : RoundTrips gson (relationshipsRecord now s.relationships)) :
    (reload gson s now outcome).relationships =
      group Relationship.category RelationshipCategory.order s.relationships := by
  cases outcome with
  | failed kept => cases hsaved
  | ok =>
    rw [← relationshipsRecord_getAll now]
    simp only [reload, initializeFrom, saveRelationships, JsonFile.write, JsonFile.load]
    rw [show gson.relationships.fromJson _ = _ from hgson]

/-- What is reloaded is the stable sort of the list by category. -/
theorem reload_eq_mergeSort (hsaved : (s.saveRelationships gson now outcome).1 = true)
    (hgson : RoundTrips gson (relationshipsRecord now s.relationships)) :
    (reload gson s now outcome).relationships =
      s.relationships.mergeSort (rankLE Relationship.category RelationshipCategory.rank) := by
  rw [reload_relationships hsaved hgson]
  exact group_eq_mergeSort RelationshipCategory.rank_injective (by decide) (by decide)
    fun r _ => r.category.mem_order

/-- Saving and reloading groups the relationships by category, loses and doubles none of them and
keeps their order within a category; a second time it changes nothing. -/
theorem reload_groups_relationships {now' : String} {outcome' : JsonFile.WriteOutcome}
    (hsaved : (s.saveRelationships gson now outcome).1 = true)
    (hsaved' : ((reload gson s now outcome).saveRelationships gson now' outcome').1 = true)
    (hgson : RoundTrips gson (relationshipsRecord now s.relationships))
    (hgson' : RoundTrips gson
      (relationshipsRecord now' (reload gson s now outcome).relationships)) :
    (reload gson s now outcome).relationships.Perm s.relationships ∧
    (reload gson s now outcome).relationships.Pairwise
      (fun a b => a.category.rank ≤ b.category.rank) ∧
    (∀ c, ((reload gson s now outcome).relationships.filter fun r => r.category == c) =
      s.relationships.filter fun r => r.category == c) ∧
    (reload gson (reload gson s now outcome) now' outcome').relationships =
      (reload gson s now outcome).relationships := by
  have hnodup : RelationshipCategory.order.Nodup := by decide
  rw [reload_relationships hsaved' hgson', reload_relationships hsaved hgson]
  refine ⟨group_perm hnodup fun r _ => RelationshipCategory.mem_order _, ?_,
    fun c => filter_group hnodup c.mem_order _, group_group hnodup _⟩
  exact group_pairwise (r := fun b c : RelationshipCategory => b.rank ≤ c.rank) (fun _ => Nat.le_refl _) (by decide) _

theorem roundTrips_sample {r : Relationships}
    (h : gson.relationships = sampleCodec Relationships.json [r]) : RoundTrips gson r := by
  unfold RoundTrips
  rw [h]
  exact (sampleCodec_exact (List.mem_singleton_self r)
    fun b hb _ => List.mem_singleton.mp hb).inverts

def mixedStore : MemoryManager where
  userProfile := {}
  relationships := [
    { id := "1" }, { id := "2", relation := some "Boss" }, { id := "3", relation := some "MOM" },
    { id := "3", relation := some "mom" }]
  reminders := {}
  memoryStats := {}
  files := ⟨none, none, none, none⟩

def mixedGson : Gson where
  userProfile := sampleCodec UserProfile.json [{}]
  relationships :=
    sampleCodec Relationships.json [relationshipsRecord "now" mixedStore.relationships]
  reminders := sampleCodec Reminders.json [{}]
  memoryStats := sampleCodec MemoryStats.json [{}]

theorem reload_groups_mixed :
    (reload mixedGson mixedStore "now" .ok).relationships.Perm mixedStore.relationships ∧
    (reload mixedGson (reload mixedGson mixedStore "now" .ok) "now" .ok).relationships =
      (reload mixedGson mixedStore "now" .ok).relationships := by
  have hsaved := saveRelationships_ok mixedGson mixedStore "now"
  have hgson : RoundTrips mixedGson (relationshipsRecord "now" mixedStore.relationships) :=
    roundTrips_sample rfl
  have hsame : RoundTrips mixedGson
      (relationshipsRecord "now" (reload mixedGson mixedStore "now" .ok).relationships) := by
    rw [reload_relationships hsaved hgson, relationshipsRecord_group]
    exact hgson
  have h := reload_groups_relationships hsaved (saveRelationships_ok ..) hgson hsame
  exact ⟨h.1, h.2.2.2⟩

end MemoryManager

end HeyNilo
