import Mathlib

/-! A 64-bit counter with guarded decrements: an increment wraps, and a decrement that would pass
below zero is skipped. While nothing wraps or is skipped the counter is exact, and undoing a series
of changes restores it exactly when none of the decrements had been skipped. -/

namespace Dilithion.Lib.Counter

inductive Delta where
  | up (amount : UInt64)
  | down (amount : UInt64)
  deriving DecidableEq, Repr

variable (counter : UInt64)

def Delta.apply : Delta → UInt64
  | up amount => counter + amount
  | down amount => if amount ≤ counter then counter - amount else counter

def tally (deltas : List Delta) : UInt64 := deltas.foldl Delta.apply counter

def rises : List Delta → Nat
  | [] => 0
  | .up amount :: rest => amount.toNat + rises rest
  | .down _ :: rest => rises rest

def falls : List Delta → Nat
  | [] => 0
  | .up _ :: rest => falls rest
  | .down amount :: rest => amount.toNat + falls rest

@[simp] lemma tally_cons (delta : Delta) (rest : List Delta) :
    tally counter (delta :: rest) = tally (delta.apply counter) rest := rfl

lemma toNat_up (amount : UInt64) (fits : counter.toNat + amount.toNat < 2 ^ 64) :
    ((Delta.up amount).apply counter).toNat = counter.toNat + amount.toNat := by
  exact Nat.mod_eq_of_lt fits

lemma toNat_down (amount : UInt64) (enough : amount.toNat ≤ counter.toNat) :
    ((Delta.down amount).apply counter).toNat = counter.toNat - amount.toNat := by
  have guard : amount ≤ counter := UInt64.le_iff_toNat_le.mpr enough
  simp only [Delta.apply, if_pos guard]
  exact UInt64.toNat_sub_of_le counter amount guard

lemma toNat_down_le (amount : UInt64) : ((Delta.down amount).apply counter).toNat ≤ counter.toNat := by
  by_cases enough : amount.toNat ≤ counter.toNat
  · rw [toNat_down counter amount enough]
    omega
  · have guard : ¬ amount ≤ counter := fun le => enough (UInt64.le_iff_toNat_le.mp le)
    simp [Delta.apply, guard]

/-- A counter that does not wrap is bounded by the increments, and exact if it covers all decrements. -/
lemma tally_bounds {counter : UInt64} {deltas : List Delta} (fits : counter.toNat + rises deltas < 2 ^ 64) :
    (tally counter deltas).toNat ≤ counter.toNat + rises deltas ∧
      (falls deltas ≤ counter.toNat → (tally counter deltas).toNat + falls deltas = counter.toNat + rises deltas) := by
  induction deltas generalizing counter with
  | nil => simp [falls, rises, tally]
  | cons delta rest ih =>
    rw [tally_cons]
    cases delta with
    | up amount =>
      simp only [falls, rises] at fits ⊢
      have value := toNat_up counter amount (by omega)
      obtain ⟨upper, whole⟩ := @ih ((Delta.up amount).apply counter) (by omega)
      exact ⟨by omega, fun covered => by have := whole (by omega); omega⟩
    | down amount =>
      simp only [falls, rises] at fits ⊢
      have lower := toNat_down_le counter amount
      obtain ⟨upper, whole⟩ := @ih ((Delta.down amount).apply counter) (by omega)
      refine ⟨by omega, fun covered => ?_⟩
      have value := toNat_down counter amount (by omega)
      have := whole (by omega)
      omega

lemma tally_exact {counter : UInt64} {deltas : List Delta} (covered : falls deltas ≤ counter.toNat)
    (fits : counter.toNat + rises deltas < 2 ^ 64) : (tally counter deltas).toNat + falls deltas =
      counter.toNat + rises deltas :=
  (tally_bounds fits).2 covered

/-- Taking back what was added and adding back what was taken restores the counter exactly when it
covered every decrement in the first place. -/
lemma tally_undo_iff (deltas : List Delta) {removal restore : List Delta}
    (removes : rises removal = 0 ∧ falls removal = rises deltas)
    (restores : falls restore = 0 ∧ rises restore = falls deltas)
    (fits : counter.toNat + rises deltas + falls deltas < 2 ^ 64) :
    tally (tally (tally counter deltas) removal) restore = counter ↔ falls deltas ≤ counter.toNat := by
  have forward := (@tally_bounds counter deltas (by omega)).1
  have back := (@tally_bounds (tally counter deltas) removal (by omega)).1
  have nothingTaken : falls restore ≤ (tally (tally counter deltas) removal).toNat := by omega
  have last := tally_exact nothingTaken (by omega)
  constructor
  · intro same
    rw [same] at last
    omega
  · intro covered
    have exactForward := tally_exact covered (by omega)
    have coveredBack : falls removal ≤ (tally counter deltas).toNat := by omega
    have exactBack := tally_exact coveredBack (by omega)
    apply UInt64.toNat.inj
    omega

end Dilithion.Lib.Counter
