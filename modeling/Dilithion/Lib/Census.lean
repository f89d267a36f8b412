import Dilithion.Lib.Ledger

/-! Counting a ledger: how many keys hold an item, and what the items weigh together. Creating at a free
key and consuming an item that is there change both numbers by exactly that item. A cap on the weight is
kept up to date in the same way, also where a creation replaces an item. -/

namespace Dilithion.Lib.Ledger

open Event List Option Function

variable {K V : Type} {weigh : V → Nat}

def weightAt (weigh : V → Nat) (ledger : Ledger K V) (key : K) : Nat := (ledger key).elim 0 weigh

/-- The keys in `live` are those that hold an item: `count` of them, weighing `total` together. -/
structure Census (weigh : V → Nat) (ledger : Ledger K V) (live : Finset K) (count total : Nat) : Prop where
  live_iff : ∀ key, key ∈ live ↔ ledger key ≠ none
  card : live.card = count
  sum : ∑ key ∈ live, weightAt weigh ledger key = total

lemma Census.empty : Census weigh (fun _ : K => none) ∅ 0 0 where
  live_iff := by simp
  card := rfl
  sum := rfl

variable [DecidableEq K] {ledger : Ledger K V} {live : Finset K} {count total : Nat}

variable {key : K}

lemma weightAt_apply_ne (event : Event K V) (other : key ≠ event.key) :
    weightAt weigh (event.apply ledger) key = weightAt weigh ledger key := by
  rw [weightAt, apply, update_of_ne other, weightAt]

lemma Census.create (census : Census weigh ledger live count total) (free : ledger key = none) (value : V) :
    Census weigh ((create key value).apply ledger) (insert key live) (count + 1) (total + weigh value) := by
  have fresh : key ∉ live := fun member => (census.live_iff key).mp member free
  have others : ∀ other ∈ live, other ≠ key := fun other member same => fresh (same ▸ member)
  refine ⟨fun other => ?_, ?_, ?_⟩
  · by_cases here : other = key
    · subst here
      simp [apply]
    · rw [apply, key_create, update_of_ne here, ← census.live_iff]
      simp [here]
  · rw [Finset.card_insert_of_notMem fresh, census.card]
  · have same : ∑ other ∈ live, weightAt weigh ((Event.create key value).apply ledger) other = total := by
      rw [← census.sum]
      exact Finset.sum_congr rfl fun other member => weightAt_apply_ne _ (others other member)
    have added : weightAt weigh ((Event.create key value).apply ledger) key = weigh value := by
      simp [weightAt, apply]
    rw [Finset.sum_insert fresh, same, added, Nat.add_comm]

lemma Census.consume (census : Census weigh ledger live count total) {value : V} (held : ledger key = some value) :
    1 ≤ count ∧ weigh value ≤ total ∧
      Census weigh ((consume key).apply ledger) (live.erase key) (count - 1) (total - weigh value) := by
  have member : key ∈ live := (census.live_iff key).mpr (by simp [held])
  have weight : weightAt weigh ledger key = weigh value := by simp [weightAt, held]
  have split : ∑ other ∈ live.erase key, weightAt weigh ledger other + weigh value = total := by
    rw [← weight, Finset.sum_erase_add _ _ member, census.sum]
  have positive : 0 < live.card := Finset.card_pos.mpr ⟨key, member⟩
  have counted := census.card
  refine ⟨by omega, by omega, fun other => ?_, ?_, ?_⟩
  · by_cases here : other = key
    · subst here
      simp [apply]
    · rw [apply, key_consume, update_of_ne here, ← census.live_iff]
      simp [here]
  · rw [Finset.card_erase_of_mem member, counted]
  · have same : ∑ other ∈ live.erase key, weightAt weigh ((Event.consume key).apply ledger) other =
        ∑ other ∈ live.erase key, weightAt weigh ledger other :=
      Finset.sum_congr rfl fun other inside => weightAt_apply_ne _ (Finset.ne_of_mem_erase inside)
    omega

/-- No finite part of the ledger weighs more than `cap`. -/
def Capped (weigh : V → Nat) (ledger : Ledger K V) (cap : Nat) : Prop :=
  ∀ keys : Finset K, ∑ key ∈ keys, weightAt weigh ledger key ≤ cap

def totalWeight (weigh : V → Nat) (items : List (K × V)) : Nat := (items.map fun item => weigh item.2).sum

omit [DecidableEq K] in
lemma capped_empty : Capped weigh (fun _ : K => none) 0 := fun keys => by simp [weightAt]

variable {cap : Nat}

omit [DecidableEq K] in
lemma Capped.mono {larger : Nat} (capped : Capped weigh ledger cap) (le : cap ≤ larger) : Capped weigh ledger larger :=
  fun keys => (capped keys).trans le

variable {keys : Finset K}

/-- The weights at the other keys are those from before the event. -/
lemma sum_weightAt_apply (event : Event K V) (absent : event.key ∉ keys) :
    ∑ key ∈ keys, weightAt weigh (event.apply ledger) key = ∑ key ∈ keys, weightAt weigh ledger key :=
  Finset.sum_congr rfl fun _ member => weightAt_apply_ne event fun same => absent (same ▸ member)

lemma sum_weightAt_apply_of_mem (event : Event K V) (member : event.key ∈ keys) :
    ∑ key ∈ keys, weightAt weigh (event.apply ledger) key =
      event.effect.elim 0 weigh + ∑ key ∈ keys.erase event.key, weightAt weigh ledger key := by
  have here : weightAt weigh (event.apply ledger) event.key = event.effect.elim 0 weigh := by
    rw [weightAt, apply, update_self]
  rw [← Finset.add_sum_erase keys _ member, here, sum_weightAt_apply event (Finset.notMem_erase event.key keys)]

section

variable (capped : Capped weigh ledger cap)

include capped

lemma Capped.event (event : Event K V) : Capped weigh (event.apply ledger) (cap + event.effect.elim 0 weigh) := by
  intro keys
  by_cases member : event.key ∈ keys
  · rw [sum_weightAt_apply_of_mem event member, Nat.add_comm]
    exact Nat.add_le_add_right (capped _) _
  · rw [sum_weightAt_apply event member]
    exact (capped keys).trans (Nat.le_add_right _ _)

/-- Consuming an item that is there takes its weight off the cap. -/
lemma Capped.consume {value : V} (held : ledger key = some value) :
    weigh value ≤ cap ∧ Capped weigh ((consume key).apply ledger) (cap - weigh value) := by
  have weight : weightAt weigh ledger key = weigh value := by simp [weightAt, held]
  -- other keys share the cap with the one that is consumed
  have others : ∀ keys : Finset K, key ∉ keys → weigh value + ∑ other ∈ keys, weightAt weigh ledger other ≤ cap := by
    intro keys absent
    rw [← weight, ← Finset.sum_insert absent]
    exact capped _
  refine ⟨(Nat.le_add_right _ _).trans (others ∅ (by simp)), fun keys => ?_⟩
  by_cases member : key ∈ keys
  · have rest := others (keys.erase key) (Finset.notMem_erase key keys)
    rw [sum_weightAt_apply_of_mem (.consume key) member]
    simp only [effect_consume, key_consume, elim_none]
    omega
  · have rest := others keys member
    rw [sum_weightAt_apply (.consume key) member]
    omega

lemma Capped.run_le (events : List (Event K V)) :
    Capped weigh (run ledger events) (cap + totalWeight weigh (events.filterMap created)) := by
  induction events generalizing ledger cap with
  | nil => exact capped
  | cons event rest ih =>
    refine (ih (capped.event event)).mono ?_
    cases event with
    | consume key => exact Nat.le_refl _
    | create key value =>
      simp only [totalWeight, filterMap_cons, created, map_cons, sum_cons, effect_create,
        elim_some]
      omega

/-- With every consumption finding its item, the cap moves by exactly what is created and what is spent. -/
lemma Capped.run {events : List (Event K V)} {records : List (K × V)}
    (found : spentRecords (fun _ => none) ledger events = some records) :
    ∃ left, left + totalWeight weigh records = cap + totalWeight weigh (events.filterMap created) ∧
      Capped weigh (Ledger.run ledger events) left := by
  induction events generalizing ledger cap records with
  | nil =>
    cases found
    exact ⟨cap, rfl, capped⟩
  | cons event rest ih =>
    cases event with
    | create key value =>
      obtain ⟨left, balance, cappedRest⟩ := ih (capped.event (.create key value)) found
      refine ⟨left, ?_, cappedRest⟩
      simp only [totalWeight, filterMap_cons, created, map_cons, sum_cons, effect_create,
        elim_some] at balance ⊢
      omega
    | consume key =>
      simp only [spentRecords, or_none, bind_eq_some_iff, map_eq_some_iff] at found
      obtain ⟨value, present, others, foundRest, rfl⟩ := found
      obtain ⟨enough, less⟩ := capped.consume present
      obtain ⟨left, balance, cappedRest⟩ := ih less foundRest
      refine ⟨left, ?_, cappedRest⟩
      simp only [totalWeight, filterMap_cons, created, map_cons, sum_cons] at balance ⊢
      omega

end

end Dilithion.Lib.Ledger
