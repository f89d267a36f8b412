import Mathlib

/-! Comparisons by three keys of which the middle one may be missing: more weight first, then the lower
middle key where both items have one, then the lower rank. An item without a middle key is placed among
the others by its rank alone, so the comparison is a strict weak order exactly where no such item has a
rank that contradicts the middle keys of two others. -/

namespace Dilithion.Lib

structure StrictWeakOn {A : Type} (before : A → A → Prop) (items : Set A) : Prop where
  irrefl : ∀ a ∈ items, ¬ before a a
  asymm : ∀ a ∈ items, ∀ b ∈ items, before a b → ¬ before b a
  trans : ∀ a ∈ items, ∀ b ∈ items, ∀ c ∈ items, before a b → before b c → before a c
  incomparable : ∀ a ∈ items, ∀ b ∈ items, ∀ c ∈ items,
    ¬ before a b ∧ ¬ before b a → ¬ before b c ∧ ¬ before c b → ¬ before a c ∧ ¬ before c a

namespace OptionalKey

variable {A W K R : Type} [LinearOrder W] [LinearOrder K] [LinearOrder R]
variable (weight : A → W) (middle : A → Option K) (rank : A → R)

def tiebreak (a b : A) : Prop :=
  match middle a, middle b with
  | some x, some y => x < y ∨ x = y ∧ rank a < rank b
  | _, _ => rank a < rank b

def before (a b : A) : Prop := weight b < weight a ∨ weight a = weight b ∧ tiebreak middle rank a b

/-- By its rank `absent` stands before or beside `low` and after or beside `high`, which the middle keys put
the other way round. -/
structure Straddles (low absent high : A) : Prop where
  weights : weight low = weight absent ∧ weight absent = weight high
  missing : middle absent = none
  keys : ∃ x y, middle low = some x ∧ middle high = some y ∧ x < y
  after : rank absent ≤ rank low
  ahead : rank high ≤ rank absent

variable {weight middle rank}

lemma tiebreak_irrefl (a : A) : ¬ tiebreak middle rank a a := by
  unfold tiebreak
  cases middle a <;> simp

variable {a b : A}

lemma tiebreak_asymm (first : tiebreak middle rank a b) : ¬ tiebreak middle rank b a := by
  unfold tiebreak at first ⊢
  cases atA : middle a <;> cases atB : middle b <;> simp only [atA, atB] at first ⊢
  · exact first.asymm
  · exact first.asymm
  · exact first.asymm
  · rintro (lower | ⟨rfl, lower⟩)
    · rcases first with less | ⟨rfl, -⟩
      · exact less.asymm lower
      · exact lower.false
    · rcases first with less | ⟨-, less⟩
      · exact less.false
      · exact less.asymm lower

lemma before_irrefl (a : A) : ¬ before weight middle rank a a := by
  rintro (more | ⟨-, tie⟩)
  · exact more.false
  · exact tiebreak_irrefl a tie

lemma before_asymm (first : before weight middle rank a b) : ¬ before weight middle rank b a := by
  rintro (more | ⟨equal, tie⟩)
  · rcases first with less | ⟨equal, -⟩
    · exact more.asymm less
    · exact more.ne equal
  · rcases first with less | ⟨-, first⟩
    · exact less.ne equal
    · exact tiebreak_asymm first tie

variable {items : Set A}

lemma tiebreak_trans {c : A}
    (afterBoth : ∀ x y, middle a = some x → middle b = some y → middle c = none → x < y →
      rank b < rank c → rank a < rank c)
    (beforeBoth : ∀ y z, middle a = none → middle b = some y → middle c = some z → y < z →
      rank a < rank b → rank a < rank c)
    (between : ∀ x z, middle a = some x → middle b = none → middle c = some z → rank a < rank b →
      rank b < rank c → ¬ z < x)
    (first : tiebreak middle rank a b) (second : tiebreak middle rank b c) : tiebreak middle rank a c := by
  unfold tiebreak at first second ⊢
  cases atA : middle a <;> cases atB : middle b <;> cases atC : middle c <;> simp only [atA, atB, atC] at first second ⊢
  case none.none.none => exact first.trans second
  case none.none.some => exact first.trans second
  case none.some.none => exact first.trans second
  case some.none.none => exact first.trans second
  case none.some.some y z =>
    rcases second with less | ⟨-, second⟩
    · exact beforeBoth y z atA atB atC less first
    · exact first.trans second
  case some.some.none x y =>
    rcases first with less | ⟨-, first⟩
    · exact afterBoth x y atA atB atC less second
    · exact first.trans second
  case some.none.some x z =>
    rcases lt_or_eq_of_le (not_lt.mp (between x z atA atB atC first second)) with less | same
    · exact .inl less
    · exact .inr ⟨same, first.trans second⟩
  case some.some.some x y z =>
    rcases first with less | ⟨rfl, first⟩
    · rcases second with less' | ⟨rfl, -⟩
      · exact .inl (less.trans less')
      · exact .inl less
    · rcases second with less' | ⟨rfl, second⟩
      · exact .inl less'
      · exact .inr ⟨rfl, first.trans second⟩

/-- Items the tiebreak does not separate share their rank, and their middle key where both have one. -/
lemma same_of_not_tiebreak (first : ¬ tiebreak middle rank a b) (second : ¬ tiebreak middle rank b a) :
    rank a = rank b ∧ ∀ x y, middle a = some x → middle b = some y → x = y := by
  unfold tiebreak at first second
  cases atA : middle a <;> cases atB : middle b <;> simp only [atA, atB] at first second ⊢
  case some.some x y =>
    rw [not_or, not_and, not_lt] at first second
    have same : x = y := le_antisymm second.1 first.1
    refine ⟨le_antisymm (not_lt.mp (second.2 same.symm)) (not_lt.mp (first.2 same)), ?_⟩
    rintro _ _ ⟨⟩ ⟨⟩
    exact same
  all_goals exact ⟨le_antisymm (not_lt.mp second) (not_lt.mp first), by simp⟩

lemma not_tiebreak_of_same (ranks : rank a = rank b)
    (keys : ∀ x y, middle a = some x → middle b = some y → x = y) : ¬ tiebreak middle rank a b := by
  unfold tiebreak
  cases atA : middle a <;> cases atB : middle b <;> simp [ranks]
  case some.some x y => simp [keys x y atA atB]

lemma incomparable_iff : ¬ before weight middle rank a b ∧ ¬ before weight middle rank b a ↔
    weight a = weight b ∧ rank a = rank b ∧ ∀ x y, middle a = some x → middle b = some y → x = y := by
  constructor
  · rintro ⟨first, second⟩
    rw [before, not_or, not_and, not_lt] at first second
    have weights : weight a = weight b := le_antisymm first.1 second.1
    exact ⟨weights, same_of_not_tiebreak (first.2 weights) (second.2 weights.symm)⟩
  · rintro ⟨weights, ranks, keys⟩
    have forward := not_tiebreak_of_same ranks keys
    have backward := not_tiebreak_of_same ranks.symm fun x y atB atA => (keys y x atA atB).symm
    rw [before, before, weights]
    simp [forward, backward]

lemma before_of_rank (weights : weight a = weight b) (missing : middle a = none ∨ middle b = none)
    (less : rank a < rank b) : before weight middle rank a b := by
  refine .inr ⟨weights, ?_⟩
  unfold tiebreak
  rcases missing with none | none
  · rwa [none]
  · rw [none]
    cases middle a <;> exact less

lemma not_straddles (weak : StrictWeakOn (before weight middle rank) items) {low absent high : A} (inLow : low ∈ items)
    (inAbsent : absent ∈ items) (inHigh : high ∈ items) : ¬ Straddles weight middle rank low absent high := by
  rintro ⟨⟨lowAbsent, absentHigh⟩, missing, ⟨x, y, atLow, atHigh, less⟩, after, ahead⟩
  have lowHigh : before weight middle rank low high := by
    refine .inr ⟨lowAbsent.trans absentHigh, ?_⟩
    simp [tiebreak, atLow, atHigh, less]
  have noKeys : ∀ {a : A} (z w : K), middle a = some z → middle absent = some w → z = w := by
    intro a z w _ at_
    rw [missing] at at_
    cases at_
  rcases lt_or_eq_of_le ahead with highAbsent | sameHigh
  · have first := before_of_rank absentHigh.symm (.inr missing) highAbsent
    have lowFirst := weak.trans low inLow high inHigh absent inAbsent lowHigh first
    rcases lt_or_eq_of_le after with absentLow | sameLow
    · exact weak.asymm _ inLow _ inAbsent lowFirst (before_of_rank lowAbsent.symm (.inl missing) absentLow)
    · exact (incomparable_iff.mpr ⟨lowAbsent, sameLow.symm, noKeys⟩).1 lowFirst
  · have beside := incomparable_iff.mpr ⟨absentHigh.symm, sameHigh, noKeys⟩
    rcases lt_or_eq_of_le after with absentLow | sameLow
    · have first := before_of_rank lowAbsent.symm (.inl missing) absentLow
      exact beside.2 (weak.trans absent inAbsent low inLow high inHigh first lowHigh)
    · have besideLow := incomparable_iff.mpr ⟨lowAbsent, sameLow.symm, noKeys⟩
      exact (weak.incomparable low inLow absent inAbsent high inHigh besideLow beside.symm).1 lowHigh

lemma strictWeakOn_iff : StrictWeakOn (before weight middle rank) items ↔
    ∀ low ∈ items, ∀ absent ∈ items, ∀ high ∈ items, ¬ Straddles weight middle rank low absent high := by
  refine ⟨fun weak low inLow absent inAbsent high inHigh => not_straddles weak inLow inAbsent inHigh, fun free => ?_⟩
  refine ⟨fun a _ => before_irrefl a, fun a _ b _ => before_asymm, ?_, ?_⟩
  · rintro a inA b inB c inC (more | ⟨equalAB, first⟩) (more' | ⟨equalBC, second⟩)
    · exact .inl (more'.trans more)
    · exact .inl (equalBC ▸ more)
    · exact .inl (equalAB ▸ more')
    · refine .inr ⟨equalAB.trans equalBC, tiebreak_trans ?_ ?_ ?_ first second⟩
      · intro x y atA atB atC less ranks
        by_contra notBefore
        exact free a inA c inC b inB
          ⟨⟨equalAB.trans equalBC, equalBC.symm⟩, atC, ⟨x, y, atA, atB, less⟩, not_lt.mp notBefore, ranks.le⟩
      · intro y z atA atB atC less ranks
        by_contra notBefore
        exact free b inB a inA c inC
          ⟨⟨equalAB.symm, equalAB.trans equalBC⟩, atA, ⟨y, z, atB, atC, less⟩, ranks.le, not_lt.mp notBefore⟩
      · intro x z atA atB atC ranks ranks' less
        exact free c inC b inB a inA ⟨⟨equalBC.symm, equalAB.symm⟩, atB, ⟨z, x, atC, atA, less⟩, ranks'.le, ranks.le⟩
  · intro a inA b inB c inC besideAB besideBC
    obtain ⟨weightAB, rankAB, keysAB⟩ := incomparable_iff.mp besideAB
    obtain ⟨weightBC, rankBC, keysBC⟩ := incomparable_iff.mp besideBC
    refine incomparable_iff.mpr ⟨weightAB.trans weightBC, rankAB.trans rankBC, fun x z atA atC => ?_⟩
    cases atB : middle b with
    | some y => exact (keysAB x y atA atB).trans (keysBC y z atB atC)
    | none =>
      -- of two different keys the lower one would make `b` straddle
      rcases lt_trichotomy x z with less | same | less
      · exact absurd ⟨⟨weightAB, weightBC⟩, atB, ⟨x, z, atA, atC, less⟩, rankAB.ge, rankBC.ge⟩ (free a inA b inB c inC)
      · exact same
      · exact absurd ⟨⟨weightBC.symm, weightAB.symm⟩, atB, ⟨z, x, atC, atA, less⟩, rankBC.le, rankAB.le⟩
          (free c inC b inB a inA)

end OptionalKey

end Dilithion.Lib
