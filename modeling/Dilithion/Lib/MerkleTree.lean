import Mathlib

/-! Trees of hashes over a list: neighbours are joined level by level until one hash is left, an odd last
hash with itself. Where joining is injective on the pairs that are joined and no leaf is a join, the root
determines a list without duplicates. -/

namespace Dilithion.Lib.MerkleTree

open List

variable {α : Type}

def pairs : List α → List (α × α)
  | [] => []
  | [last] => [(last, last)]
  | left :: right :: rest => (left, right) :: pairs rest

lemma pairs_fst_sublist (level : List α) : ((pairs level).map Prod.fst).Sublist level := by
  induction level using pairs.induct with
  | case1 => exact List.Sublist.refl _
  | case2 last => exact List.Sublist.refl _
  | case3 left right rest ih => exact (ih.cons right).cons_cons left

variable {level : List α}

lemma nodup_pairs (distinct : level.Nodup) : (pairs level).Nodup :=
  (distinct.sublist (pairs_fst_sublist level)).of_map _

lemma length_pairs (level : List α) : (pairs level).length = (level.length + 1) / 2 := by
  induction level using pairs.induct with
  | case1 => simp [pairs]
  | case2 last => simp [pairs]
  | case3 left right rest ih =>
    simp only [pairs, length_cons, ih]
    omega

variable {level level' : List α}

/-- Levels with the same pairs are the same, or one of them repeats its last node. -/
lemma pairs_cases (same : pairs level = pairs level') :
    level = level' ∨ level.length ≠ level'.length ∧ ¬ (level.Nodup ∧ level'.Nodup) := by
  induction level using pairs.induct generalizing level' with
  | case1 =>
    rcases level' with _ | ⟨first, _ | ⟨second, rest⟩⟩
    · exact .inl rfl
    · cases same
    · cases same
  | case2 last =>
    rcases level' with _ | ⟨first, _ | ⟨second, rest⟩⟩
    · cases same
    · cases same
      exact .inl rfl
    · simp only [pairs, cons.injEq, Prod.mk.injEq] at same
      obtain ⟨⟨rfl, rfl⟩, -⟩ := same
      exact .inr (by simp)
  | case3 left right rest ih =>
    rcases level' with _ | ⟨first, _ | ⟨second, others⟩⟩
    · cases same
    · simp only [pairs, cons.injEq, Prod.mk.injEq] at same
      obtain ⟨⟨rfl, rfl⟩, -⟩ := same
      exact .inr (by simp)
    · simp only [pairs, cons.injEq, Prod.mk.injEq] at same
      obtain ⟨⟨rfl, rfl⟩, tails⟩ := same
      rcases ih tails with rfl | ⟨differ, repeats⟩
      · exact .inl rfl
      · exact .inr ⟨by simpa using differ, fun both => repeats ⟨both.1.of_cons.of_cons, both.2.of_cons.of_cons⟩⟩

lemma pairs_inj (distinct : level.Nodup) (distinct' : level'.Nodup) (same : pairs level = pairs level') :
    level = level' :=
  (pairs_cases same).resolve_right fun differ => differ.2 ⟨distinct, distinct'⟩

lemma map_injOn {β : Type} {f : α → β} {domain : Set α} (injective : Set.InjOn f domain) {items items' : List α}
    (inside : ∀ item ∈ items, item ∈ domain) (inside' : ∀ item ∈ items', item ∈ domain)
    (same : items.map f = items'.map f) : items = items' := by
  induction items generalizing items' with
  | nil => exact (map_eq_nil_iff.mp same.symm).symm
  | cons item others ih =>
    cases items' with
    | nil => cases same
    | cons item' others' =>
      simp only [map_cons, cons.injEq] at same
      have heads := injective (inside _ mem_cons_self) (inside' _ mem_cons_self) same.1
      have tails := ih (fun other member => inside other (mem_cons_of_mem _ member))
        (fun other member => inside' other (mem_cons_of_mem _ member)) same.2
      rw [heads, tails]

variable (node : α × α → α)

def up (level : List α) : List α := (pairs level).map node

-- A level of `n > 1` hashes has `(n + 1) / 2 < n` parents, so the number of leaves bounds the levels.
def climb (empty : α) : Nat → List α → α
  | _, [] => empty
  | _, [root] => root
  | 0, _ => empty
  | levels + 1, level => climb empty levels (up node level)

def joined : Nat → List α → List (α × α)
  | _, [] => []
  | _, [_] => []
  | 0, _ => []
  | levels + 1, level => pairs level ++ joined levels (up node level)

def Step (level next : List α) : Prop := 1 < level.length ∧ next = up node level

abbrev Rises : List α → List α → Prop := Relation.ReflTransGen (Step node)

variable {node}

lemma length_up (level : List α) : (up node level).length = (level.length + 1) / 2 := by
  rw [up, length_map, length_pairs]

variable {levels : Nat} {empty : α}

lemma rises_climb (enough : level.length ≤ levels) (nonempty : level ≠ []) :
    Rises node level [climb node empty levels level] := by
  induction levels generalizing level with
  | zero => exact absurd (length_eq_zero_iff.mp (Nat.le_zero.mp enough)) nonempty
  | succ levels ih =>
    rcases level with _ | ⟨first, _ | ⟨second, rest⟩⟩
    · exact absurd rfl nonempty
    · exact .refl
    · have shorter : (up node (first :: second :: rest)).length = _ := length_up _
      have step : Step node (first :: second :: rest) (up node (first :: second :: rest)) := ⟨by simp, rfl⟩
      refine Relation.ReflTransGen.head step (ih ?_ ?_)
      · simp only [length_cons] at shorter enough
        omega
      · simp [up, pairs]

lemma joined_succ (more : 1 < level.length) :
    joined node (levels + 1) level = pairs level ++ joined node levels (up node level) := by
  rcases level with _ | ⟨first, _ | ⟨second, rest⟩⟩
  · simp at more
  · simp at more
  · rfl

lemma pairs_joined {level higher : List α} (enough : level.length ≤ levels) (rises : Rises node level higher)
    (more : 1 < higher.length) {pair : α × α} (member : pair ∈ pairs higher) : pair ∈ joined node levels level := by
  induction rises using Relation.ReflTransGen.head_induction_on generalizing levels with
  | refl =>
    obtain ⟨fewer, rfl⟩ : ∃ fewer, levels = fewer + 1 := ⟨levels - 1, by omega⟩
    rw [joined_succ more]
    exact mem_append_left _ member
  | head step _ ih =>
    obtain ⟨long, rfl⟩ := step
    obtain ⟨fewer, rfl⟩ : ∃ fewer, levels = fewer + 1 := ⟨levels - 1, by omega⟩
    rw [joined_succ long]
    refine mem_append_right _ (ih ?_)
    rw [length_up]
    omega

section

variable {domain : Set (α × α)} (injective : Set.InjOn node domain)

include injective

lemma nodup_up {level : List α} (distinct : level.Nodup) (inside : ∀ pair ∈ pairs level, pair ∈ domain) :
    (up node level).Nodup :=
  (nodup_pairs distinct).map_on fun _ member _ member' => injective (inside _ member) (inside _ member')

lemma nodup_of_rises {level higher : List α} (rises : Rises node level higher) (distinct : level.Nodup)
    (inside : ∀ between, Rises node level between → 1 < between.length → ∀ pair ∈ pairs between, pair ∈ domain) :
    higher.Nodup := by
  induction rises with
  | refl => exact distinct
  | tail below step ih =>
    obtain ⟨more, rfl⟩ := step
    exact nodup_up injective ih (inside _ below more)

/-- Two levels under one root: one of them is passed on the way from the other. -/
lemma rises_of_root {level level' : List α} {root : α} (rises : Rises node level [root])
    (rises' : Rises node level' [root])
    (distinct : level.Nodup) (distinct' : level'.Nodup)
    (inside : ∀ between, Rises node level between → 1 < between.length → ∀ pair ∈ pairs between, pair ∈ domain)
    (inside' : ∀ between, Rises node level' between → 1 < between.length → ∀ pair ∈ pairs between, pair ∈ domain) :
    Rises node level' level ∨ Rises node level level' := by
  induction rises using Relation.ReflTransGen.head_induction_on with
  | refl => exact .inl rises'
  | @head level next step _ ih =>
    obtain ⟨more, rfl⟩ := step
    have first : Rises node level (up node level) := .single ⟨more, rfl⟩
    have higher := ih (nodup_up injective distinct (inside level .refl more))
      fun between rises => inside between (first.trans rises)
    rcases higher with below | above
    · -- The step into the next level comes from this level, since joining is injective.
      rcases Relation.ReflTransGen.cases_tail below with same | ⟨other, reached, long, same⟩
      · exact .inr (same ▸ first)
      · have distinctOther := nodup_of_rises injective reached distinct' inside'
        have samePairs := map_injOn injective (inside level .refl more) (inside' other reached long) same
        rw [pairs_inj distinct distinctOther samePairs]
        exact .inl reached
    · exact .inr (first.trans above)

end

/-- In lists of one length an odd last element meets an odd last element. -/
lemma pairs_inj_of_length (sameLength : level.length = level'.length) (same : pairs level = pairs level') :
    level = level' :=
  (pairs_cases same).resolve_right fun differ => differ.1 sameLength

variable {leaves leaves' : List α}

/-- Lists of one length that have the same root are equal, duplicates or not. -/
lemma eq_of_climb_of_length (sameLength : leaves.length = leaves'.length) (enough : leaves.length ≤ levels)
    (injective : Set.InjOn node {pair | pair ∈ joined node levels leaves ∨ pair ∈ joined node levels leaves'})
    (same : climb node empty levels leaves = climb node empty levels leaves') : leaves = leaves' := by
  induction levels generalizing leaves leaves' with
  | zero =>
    have none := length_eq_zero_iff.mp (Nat.le_zero.mp enough)
    rw [none] at sameLength ⊢
    exact (length_eq_zero_iff.mp sameLength.symm).symm
  | succ levels ih =>
    by_cases more : 1 < leaves.length
    · have more' := sameLength ▸ more
      have climbs {level : List α} (more : 1 < level.length) :
          climb node empty (levels + 1) level = climb node empty levels (up node level) := by
        rcases level with _ | ⟨first, _ | ⟨second, rest⟩⟩
        · simp at more
        · simp at more
        · rfl
      rw [joined_succ more, joined_succ more'] at injective
      rw [climbs more, climbs more'] at same
      have above := ih (by rw [length_up, length_up, sameLength]) (by rw [length_up]; omega)
        (injective.mono fun pair member => member.imp (mem_append_right _) (mem_append_right _)) same
      exact pairs_inj_of_length sameLength (map_injOn injective (fun pair member => .inl (mem_append_left _ member))
        (fun pair member => .inr (mem_append_left _ member)) above)
    · rcases leaves with _ | ⟨root, _ | ⟨second, rest⟩⟩
      · exact (length_eq_zero_iff.mp sameLength.symm).symm
      · obtain ⟨root', rfl⟩ := length_eq_one_iff.mp sameLength.symm
        simpa [climb] using same
      · simp at more

/-- Lists without duplicates that have the same root are equal, where joining is injective on the joined
pairs and no leaf of one list is a join of the other. -/
lemma eq_of_climb (nonempty : leaves ≠ []) (nonempty' : leaves' ≠ [])
    (distinct : leaves.Nodup) (distinct' : leaves'.Nodup)
    (injective : Set.InjOn node {pair | pair ∈ joined node leaves.length leaves ∨
      pair ∈ joined node leaves'.length leaves'})
    (separate : ∀ leaf ∈ leaves, ∀ pair ∈ joined node leaves'.length leaves', leaf ≠ node pair)
    (separate' : ∀ leaf ∈ leaves', ∀ pair ∈ joined node leaves.length leaves, leaf ≠ node pair)
    (same : climb node empty leaves.length leaves = climb node empty leaves'.length leaves') : leaves = leaves' := by
  -- A list that lies strictly above the other one starts with a join.
  have lowest : ∀ {lower higher : List α}, higher ≠ [] → Rises node lower higher →
      (∀ leaf ∈ higher, ∀ pair ∈ joined node lower.length lower, leaf ≠ node pair) → higher = lower := by
    intro lower higher exists_ rises apart
    rcases Relation.ReflTransGen.cases_tail rises with same | ⟨between, reached, more, rfl⟩
    · exact same
    · obtain ⟨leaf, member⟩ := exists_mem_of_ne_nil _ exists_
      obtain ⟨pair, isPair, rfl⟩ := mem_map.mp member
      exact absurd rfl (apart _ member pair (pairs_joined (Nat.le_refl _) reached more isPair))
  have rises : Rises node leaves [climb node empty leaves.length leaves] := rises_climb (Nat.le_refl _) nonempty
  have rises' : Rises node leaves' [climb node empty leaves'.length leaves'] := rises_climb (Nat.le_refl _) nonempty'
  rw [← same] at rises'
  rcases rises_of_root injective rises rises' distinct distinct'
    (fun _ reached more _ member => .inl (pairs_joined (Nat.le_refl _) reached more member))
    (fun _ reached more _ member => .inr (pairs_joined (Nat.le_refl _) reached more member)) with below | above
  · exact lowest nonempty below separate
  · exact (lowest nonempty' above separate').symm

end Dilithion.Lib.MerkleTree
