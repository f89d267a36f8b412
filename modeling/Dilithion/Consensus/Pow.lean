import Dilithion.Consensus.Params

/-! Time and work. The median of the last timestamps does not fall along a chain whose blocks are checked against it. -/

namespace Dilithion

open List

namespace Lib

/-- In a sorted list an element is above `bound` just if few enough elements are below. -/
lemma le_getElem_iff_countP {times : List Nat} (sorted : times.Pairwise (· ≤ ·)) {index : Nat}
    (inside : index < times.length)
    (bound : Nat) : bound ≤ times[index] ↔ times.countP (· < bound) ≤ index := by
  induction times generalizing index with
  | nil => cases inside
  | cons time rest ih =>
    obtain ⟨least, later⟩ := pairwise_cons.mp sorted
    by_cases below : time < bound
    · cases index with
      | zero => simp [below]
      | succ index => simpa [below] using ih later (Nat.lt_of_succ_lt_succ inside)
    · have none_ : rest.countP (· < bound) = 0 := by
        rw [countP_eq_zero]
        intro other member
        have := least other member
        simp only [decide_eq_true_eq]
        omega
      have above : time ≤ (time :: rest)[index] := by
        cases index with
        | zero => exact Nat.le_refl _
        | succ index => exact least _ (getElem_mem _)
      simp only [countP_cons, none_, decide_eq_true_eq, if_neg below]
      omega

end Lib

/-- The times of a block and of its ancestors, newest first, stand for the walk along `pprev`. -/
def getMedianTimePast (pindex : List UInt32) : Nat :=
  let vTimes := (pindex.take 11).map UInt32.toNat
  (vTimes.insertionSort (· ≤ ·))[vTimes.length / 2]?.getD 0

def maxFutureBlockTime : Int := 2 * 60 * 60

def maxFutureBlockTimeV2 : Int := 10 * 60

def checkBlockTimestamp (params : ChainParams) (getTime : Int) (nTime : UInt32) (pindexPrev : List UInt32)
    (blockHeight : Int) : Bool :=
  let maxFuture := if 0 ≤ blockHeight ∧
    params.timestampValidationHeight ≤ blockHeight then maxFutureBlockTimeV2 else maxFutureBlockTime
  if nTime = 0 then false
  else if getTime + maxFuture < nTime.toNat then false
  else match pindexPrev with
    | [] => true
    | prevTime :: _ =>
      if nTime.toNat ≤ getMedianTimePast pindexPrev then false
      else !decide (0 < params.minBlockTimestampGap ∧ params.minBlockTimestampGapHeight ≤ blockHeight ∧
        (nTime.toNat : Int) < prevTime.toNat + params.minBlockTimestampGap)

variable {pindex parent chain : List UInt32} {nTime : UInt32}

lemma le_getMedianTimePast (nonempty : pindex ≠ []) (bound : Nat) : bound ≤ getMedianTimePast pindex ↔
    ((pindex.take 11).map UInt32.toNat).countP (· < bound) ≤ ((pindex.take 11).map UInt32.toNat).length / 2 := by
  have inside : ((pindex.take 11).map UInt32.toNat).length / 2 <
      (((pindex.take 11).map UInt32.toNat).insertionSort (· ≤ ·)).length := by
    have := length_pos_of_ne_nil nonempty
    simp only [length_insertionSort, length_map, length_take]
    omega
  rw [getMedianTimePast, getElem?_eq_getElem inside, Option.getD_some,
    Lib.le_getElem_iff_countP (pairwise_insertionSort _ _), (perm_insertionSort _ _).countP_eq]

lemma getMedianTimePast_cons (nonempty : parent ≠ []) (later : getMedianTimePast parent < nTime.toNat) :
    getMedianTimePast parent ≤ getMedianTimePast (nTime :: parent) := by
  have before := (le_getMedianTimePast nonempty _).mp (Nat.le_refl _)
  rw [le_getMedianTimePast (cons_ne_nil _ _)]
  generalize getMedianTimePast parent = median at *
  -- only the oldest time leaves the window
  have fewer : ((parent.take 10).map UInt32.toNat).countP (· < median) ≤
      ((parent.take 11).map UInt32.toNat).countP (· < median) :=
    List.Sublist.countP_le ((take_sublist_take_left (by decide)).map _)
  simp only [take_succ_cons, map_cons, countP_cons, decide_eq_true_eq, if_neg (Nat.lt_asymm later),
    length_cons, length_map, length_take] at *
  omega

/-- Along a chain whose blocks passed the check against their parents, whenever they came, the median does not fall. -/
theorem medianTimePast_monotone {params : ChainParams}
    (passed : ∀ nTime parent, nTime :: parent <:+ chain → parent ≠ [] →
      ∃ getTime blockHeight, checkBlockTimestamp params getTime nTime parent blockHeight = true) :
    ∀ nTime parent, nTime :: parent <:+ chain → getMedianTimePast parent ≤ getMedianTimePast (nTime :: parent) := by
  intro nTime parent inside
  cases parent with
  | nil => simp [getMedianTimePast]
  | cons prevTime ancestors =>
    obtain ⟨getTime, blockHeight, check⟩ := passed nTime _ inside (cons_ne_nil _ _)
    refine getMedianTimePast_cons (cons_ne_nil _ _) (Nat.lt_of_not_le fun early => ?_)
    simp [checkBlockTimestamp, early] at check

theorem medianTimePast_monotone_three : checkBlockTimestamp {} 1700000300 1700000300 [1700000240, 1700000000] 2 = true ∧
    ∀ nTime parent, nTime :: parent <:+ [1700000300, 1700000240, 1700000000] →
      getMedianTimePast parent ≤ getMedianTimePast (nTime :: parent) := by
  refine ⟨by decide, @medianTimePast_monotone _ {} fun nTime parent inside nonempty => ⟨1700000300, 2, ?_⟩⟩
  simp only [suffix_cons_iff, cons.injEq, suffix_nil, reduceCtorEq, or_false] at inside
  rcases inside with ⟨rfl, rfl⟩ | ⟨rfl, rfl⟩ | ⟨rfl, rfl⟩
  · decide
  · decide
  · exact absurd rfl nonempty

/-! Targets and their compact form. What is kept of a target are its bits from some byte upwards, at least 15 of
them, unless nothing is lost; so the rounded target is the largest below. From `2 ^ 255` on, the corrected form has
33 bytes, which is read as zero. -/

open Lib Nat

def compactToBig (nCompact : UInt32) : Uint256 :=
  let nSize := nCompact.toNat / 2 ^ 24
  let nWord := nCompact.toNat % 2 ^ 23
  if nWord = 0 ∨ nSize = 0 ∨ 32 < nSize then .ofNat 0
  else if nSize ≤ 3 then .ofNat (nWord / 256 ^ (3 - nSize))
  else .ofNat (nWord * 256 ^ (nSize - 3))

/-- The loop of `BigToCompact` that looks for the first byte that is not zero. -/
def significant (target : Nat) : Nat → Nat
  | 0 => 0
  | nSize + 1 => if target / 256 ^ nSize % 256 = 0 then significant target nSize else nSize + 1

def bigToCompact (target : Uint256) : UInt32 :=
  let nSize := significant target.toNat 32
  if nSize = 0 then 0
  else if nSize ≤ 3 then .ofNat (nSize * 2 ^ 24 + target.toNat % 2 ^ 24 * 256 ^ (3 - nSize))
  else .ofNat (nSize * 2 ^ 24 + target.toNat / 256 ^ (nSize - 3) % 2 ^ 24)

def fixCompactEncoding (nCompact : UInt32) : UInt32 :=
  let nSize := nCompact.toNat / 2 ^ 24
  let nMantissa := nCompact.toNat % 2 ^ 24
  if 2 ^ 23 ≤ nMantissa then .ofNat ((nSize + 1) * 2 ^ 24 + nMantissa / 256)
  else .ofNat (nSize * 2 ^ 24 + nMantissa)

def roundedTarget (target : Uint256) : Uint256 := compactToBig (fixCompactEncoding (bigToCompact target))

lemma toNat_compactToBig (nCompact : UInt32) : (compactToBig nCompact).toNat =
    if nCompact.toNat / 2 ^ 24 ≤ 32 then nCompact.toNat % 2 ^ 23 * 256 ^ (nCompact.toNat / 2 ^ 24) / 256 ^ 3
    else 0 := by
  have word : nCompact.toNat % 2 ^ 23 < 2 ^ 23 := mod_lt _ (by decide)
  have exact_ (value : Nat) (bound : value < 2 ^ 255) : (Uint256.ofNat value).toNat = value :=
    LittleEndian.value_encode (by omega)
  unfold compactToBig
  generalize nCompact.toNat % 2 ^ 23 = nWord at *
  generalize nCompact.toNat / 2 ^ 24 = nSize
  dsimp only
  by_cases short : nSize ≤ 3
  · rw [if_pos (show nSize ≤ 32 by omega), if_pos short]
    interval_cases nSize <;> split <;> rw [exact_ _ (by omega)] <;> omega
  · rw [if_neg short]
    obtain ⟨shift, rfl⟩ : ∃ shift, nSize = shift + 3 := ⟨nSize - 3, by omega⟩
    rw [Nat.add_sub_cancel, pow_add, ← mul_assoc, Nat.mul_div_cancel _ (by decide)]
    split
    next none_ =>
      rw [exact_ 0 (by decide)]
      split
      next fits =>
        obtain rfl : nWord = 0 := by omega
        simp
      next => rfl
    next some_ =>
      have bound : nWord * 256 ^ shift < 2 ^ 23 * 256 ^ 29 :=
        Nat.mul_lt_mul_of_lt_of_le word (Nat.pow_le_pow_right (by decide) (by omega)) (by decide)
      rw [if_pos (show shift + 3 ≤ 32 by omega), exact_ _ (bound.trans_le (by decide))]

lemma significant_spec {target bytes : Nat} (bound : target < 256 ^ bytes) :
    target < 256 ^ significant target bytes ∧ significant target bytes ≤ bytes ∧
      (significant target bytes ≠ 0 → 256 ^ (significant target bytes - 1) ≤ target) := by
  induction bytes with
  | zero => exact ⟨bound, le_refl _, fun some_ => absurd rfl some_⟩
  | succ bytes ih =>
    have digit : target / 256 ^ bytes < 256 := Nat.div_lt_of_lt_mul (by rwa [pow_succ] at bound)
    unfold significant
    split
    next zero =>
      rw [mod_eq_of_lt digit, div_eq_zero_iff_lt (by positivity)] at zero
      obtain ⟨below, fewer, above⟩ := ih zero
      exact ⟨below, le_succ_of_le fewer, above⟩
    next some_ =>
      refine ⟨bound, le_refl _, fun _ => ?_⟩
      rw [mod_eq_of_lt digit] at some_
      exact Nat.le_of_not_lt fun less => some_ (div_eq_of_lt less)

lemma bigToCompact_eq (target : Uint256) : bigToCompact target =
    .ofNat (significant target.toNat 32 * 2 ^ 24 + target.toNat * 256 ^ 3 / 256 ^ significant target.toNat 32) := by
  obtain ⟨bound, -⟩ := significant_spec target.toNat_lt
  unfold bigToCompact
  generalize significant target.toNat 32 = nSize at *
  dsimp only
  split
  next none_ =>
    subst none_
    rw [show target.toNat = 0 by omega]
    rfl
  next =>
    split
    next short =>
      refine congrArg UInt32.ofNat ?_
      interval_cases nSize <;> omega
    next long =>
      obtain ⟨shift, rfl⟩ : ∃ shift, nSize = shift + 3 := ⟨nSize - 3, by omega⟩
      have mantissa : target.toNat / 256 ^ shift < 2 ^ 24 := Nat.div_lt_of_lt_mul (by rwa [pow_add] at bound)
      rw [Nat.add_sub_cancel, mod_eq_of_lt mantissa, pow_add, Nat.mul_div_mul_right _ _ (by decide)]

lemma toNat_packed {nSize nMantissa : Nat} (size : nSize ≤ 33) (mantissa : nMantissa < 2 ^ 24) :
    (UInt32.ofNat (nSize * 2 ^ 24 + nMantissa)).toNat = nSize * 2 ^ 24 + nMantissa := by
  rw [UInt32.toNat_ofNat']
  omega

lemma toNat_compactToBig_packed {nSize nWord : Nat} (size : nSize ≤ 33) (word : nWord < 2 ^ 23) :
    (compactToBig (.ofNat (nSize * 2 ^ 24 + nWord))).toNat =
      if nSize ≤ 32 then nWord * 256 ^ nSize / 256 ^ 3 else 0 := by
  have high : (nSize * 2 ^ 24 + nWord) / 2 ^ 24 = nSize := by omega
  have low : (nSize * 2 ^ 24 + nWord) % 2 ^ 23 = nWord := by omega
  rw [toNat_compactToBig, toNat_packed size (by omega), high, low]

lemma fixCompactEncoding_packed {nSize nMantissa : Nat} (size : nSize ≤ 32) (mantissa : nMantissa < 2 ^ 24) :
    fixCompactEncoding (.ofNat (nSize * 2 ^ 24 + nMantissa)) =
      if 2 ^ 23 ≤ nMantissa then .ofNat ((nSize + 1) * 2 ^ 24 + nMantissa / 256)
      else .ofNat (nSize * 2 ^ 24 + nMantissa) := by
  have high : (nSize * 2 ^ 24 + nMantissa) / 2 ^ 24 = nSize := by omega
  have low : (nSize * 2 ^ 24 + nMantissa) % 2 ^ 24 = nMantissa := by omega
  simp only [fixCompactEncoding, toNat_packed (le_succ_of_le size) mantissa, high, low]

/-- The rounded target is zero from `2 ^ 255` on; below, bytes are cut off only if at least 15 bits are left. -/
lemma roundedTarget_cases (target : Uint256) :
    2 ^ 255 ≤ target.toNat ∧ (roundedTarget target).toNat = 0 ∨ target.toNat < 2 ^ 255 ∧
      ∃ cut, (roundedTarget target).toNat = target.toNat * 256 ^ 3 / 256 ^ cut * 256 ^ cut / 256 ^ 3 ∧
        (target.toNat = 0 ∨ 2 ^ 15 ≤ target.toNat * 256 ^ 3 / 256 ^ cut) := by
  obtain ⟨bound, fewer, above⟩ := significant_spec target.toNat_lt
  rw [roundedTarget, bigToCompact_eq]
  generalize target.toNat = value at *
  generalize significant value 32 = nSize at *
  have mantissa : value * 256 ^ 3 / 256 ^ nSize < 2 ^ 24 :=
    Nat.div_lt_of_lt_mul (Nat.mul_lt_mul_of_pos_right bound (by decide))
  have inside (room : nSize < 32) : value < 2 ^ 255 :=
    bound.trans_le (le_trans (Nat.pow_le_pow_right (by decide) (le_of_lt_succ room)) (by decide))
  rw [fixCompactEncoding_packed fewer mantissa]
  split
  next large =>
    rw [toNat_compactToBig_packed (Nat.succ_le_succ fewer) (Nat.div_lt_of_lt_mul (mantissa.trans_le (by decide)))]
    split
    next room =>
      refine .inr ⟨inside room, nSize + 1, ?_, .inr ?_⟩ <;> rw [pow_succ 256 nSize, ← Nat.div_div_eq_div_mul]
      exact (le_div_iff_mul_le (by decide)).mpr large
    next full =>
      obtain rfl : nSize = 32 := by omega
      exact .inl ⟨by omega, rfl⟩
  next small =>
    rw [toNat_compactToBig_packed (le_succ_of_le fewer) (Nat.lt_of_not_le small), if_pos fewer]
    refine .inr ⟨?_, nSize, rfl, ?_⟩
    · rcases Nat.lt_or_eq_of_le fewer with room | rfl
      · exact inside room
      · omega
    · by_cases some_ : nSize = 0
      · subst some_
        exact .inl (by omega)
      · refine .inr ((le_div_iff_mul_le (by positivity)).mpr ?_)
        have first := above some_
        have next : 256 ^ nSize = 256 ^ (nSize - 1) * 256 := by
          rw [← pow_succ, Nat.sub_add_cancel (pos_of_ne_zero some_)]
        omega

lemma compactToBig_form (nCompact : UInt32) : ∃ word shift, word < 2 ^ 23 ∧
    (compactToBig nCompact).toNat = word * 256 ^ shift := by
  rw [toNat_compactToBig]
  have word : nCompact.toNat % 2 ^ 23 < 2 ^ 23 := mod_lt _ (by decide)
  generalize nCompact.toNat % 2 ^ 23 = nWord at *
  generalize nCompact.toNat / 2 ^ 24 = nSize
  split
  · by_cases short : nSize ≤ 3
    · refine ⟨_, 0, lt_of_le_of_lt (Nat.div_le_of_le_mul ?_) word, (Nat.mul_one _).symm⟩
      rw [mul_comm]
      exact mul_le_mul_right _ (Nat.pow_le_pow_right (by decide) short)
    · refine ⟨nWord, nSize - 3, word, ?_⟩
      rw [← Nat.sub_add_cancel (Nat.le_of_not_le short), pow_add, ← mul_assoc,
        Nat.mul_div_cancel _ (by decide), Nat.add_sub_cancel]
  · exact ⟨0, 0, by decide, rfl⟩

lemma roundedTarget_greatest {target : Uint256} (small : target.toNat < 2 ^ 255) :
    (roundedTarget target).toNat ≤ target.toNat ∧
      ∀ nCompact, (compactToBig nCompact).toNat ≤ target.toNat →
      (compactToBig nCompact).toNat ≤ (roundedTarget target).toNat := by
  obtain ⟨large, -⟩ | ⟨-, cut, rounded, left⟩ := roundedTarget_cases target
  · omega
  · rw [rounded]
    refine ⟨Nat.div_le_of_le_mul (mul_comm (256 ^ 3) _ ▸ div_mul_le_self _ _), fun nCompact below => ?_⟩
    obtain ⟨word, shift, fits, value⟩ := compactToBig_form nCompact
    rw [value] at below ⊢
    rw [le_div_iff_mul_le (by decide), mul_assoc, ← pow_add]
    have scaled : word * 256 ^ (shift + 3) ≤ target.toNat * 256 ^ 3 := by
      rw [pow_add, ← mul_assoc]
      exact mul_le_mul_right _ below
    by_cases coarse : cut ≤ shift + 3
    · rw [← Nat.sub_add_cancel coarse, pow_add, ← mul_assoc] at scaled ⊢
      exact mul_le_mul_right _ ((le_div_iff_mul_le (by positivity)).mpr scaled)
    · rcases left with zero | bits
      · rw [zero, zero_mul] at scaled
        omega
      · calc word * 256 ^ (shift + 3) ≤ 2 ^ 23 * 256 ^ (shift + 3) := mul_le_mul_right _ fits.le
          _ = 2 ^ 15 * 256 ^ (shift + 4) := by rw [pow_succ _ (shift + 3)]; omega
          _ ≤ target.toNat * 256 ^ 3 / 256 ^ cut * 256 ^ cut :=
            Nat.mul_le_mul bits (Nat.pow_le_pow_right (by decide) (by omega))

/-- Below `2 ^ 255`, and only there, a target is rounded down to the largest one that has a compact form. -/
theorem compact_rounds_down_iff (target : Uint256) :
    ((roundedTarget target).toNat ≤ target.toNat ∧
      (∀ nCompact, (compactToBig nCompact).toNat ≤ target.toNat →
        (compactToBig nCompact).toNat ≤ (roundedTarget target).toNat) ∧
      (∀ other, other.toNat ≤ target.toNat → (roundedTarget other).toNat ≤ (roundedTarget target).toNat) ∧
      roundedTarget (roundedTarget target) = roundedTarget target ∧
      ((roundedTarget target).toNat = 0 → ∀ nCompact, (compactToBig nCompact).toNat ≠ 0 →
        target.toNat < (compactToBig nCompact).toNat)) ↔ target.toNat < 2 ^ 255 := by
  constructor
  · rintro ⟨-, greatest, -⟩
    obtain ⟨large, zero⟩ | ⟨small, -⟩ := roundedTarget_cases target
    · have one : (compactToBig 0x01010000).toNat = 1 := by decide
      have := greatest 0x01010000 (by omega)
      omega
    · exact small
  · intro small
    obtain ⟨down, greatest⟩ := roundedTarget_greatest small
    have again := roundedTarget_greatest (lt_of_le_of_lt down small)
    refine ⟨down, greatest, fun other below => ?_, Uint256.toNat_injective ?_, fun zero nCompact some_ => ?_⟩
    · exact greatest _ (le_trans (roundedTarget_greatest (lt_of_le_of_lt below small)).1 below)
    · exact le_antisymm again.1 (again.2 _ (le_refl _))
    · by_contra reached
      exact some_ (le_zero.mp (zero ▸ greatest nCompact (Nat.le_of_not_lt reached)))

/-- The largest targets become zero, although half of them has a compact form. -/
theorem large_target_becomes_zero :
    (roundedTarget (.ofNat (2 ^ 255))).toNat = 0 ∧ (compactToBig 0x207fffff).toNat ≤ 2 ^ 255 ∧
    (compactToBig 0x207fffff).toNat ≠ 0 := by
  decide +kernel

/-! The product and the quotient behind the difficulty adjustment: bytes are multiplied with a carry that is checked,
and divided with a remainder that is not. -/

open LittleEndian

/-- `none` where an overflow is detected; else the low bytes and the carry. -/
def multiplyBytes (b : Nat) : Nat → Bytes → Option (Bytes × Nat)
  | carry, [] => some ([], carry)
  | carry, byte :: rest =>
    if byte.toNat ≠ 0 ∧ (2 ^ 64 - 1) / byte.toNat < b then none
    else if 2 ^ 64 - 1 - byte.toNat * b < carry then none
    else
      let product := byte.toNat * b + carry
      (multiplyBytes b (product / 256) rest).map fun (low, last) => (UInt8.ofNat product :: low, last)

-- Eight bytes hold whatever 64-bit carry is left.
def multiply256x64 (a : Uint256) (b : UInt64) : Option Bytes :=
  (multiplyBytes b.toNat 0 a.data).map fun (low, carry) => low ++ encode 8 carry

def divideBytes (divisor : Nat) : Nat → Bytes → Bytes
  | _, [] => []
  | remainder, byte :: rest =>
    let remainder := remainder * 256 % 2 ^ 64 + byte.toNat
    UInt8.ofNat (remainder / divisor) :: divideBytes divisor (remainder % divisor) rest

/-- The 32 low bytes of the quotient are kept. -/
def divide320x64 (dividend : Bytes) (divisor : UInt64) : Uint256 :=
  if divisor = 0 then .null else .ofNat (value (divideBytes divisor.toNat 0 dividend.reverse).reverse)

lemma multiplyBytes_exact {b : Nat} (small : b < 2 ^ 56) (bytes : Bytes) {carry : Nat} (low : carry < 2 ^ 56) :
    ∃ result last, multiplyBytes b carry bytes = some (result, last) ∧ last < 2 ^ 56 ∧ result.length = bytes.length ∧
      value result + 256 ^ bytes.length * last = value bytes * b + carry := by
  induction bytes generalizing carry with
  | nil => exact ⟨[], carry, rfl, low, rfl, by simp [value]⟩
  | cons byte rest ih =>
    have digit := Nat.mul_le_mul_right b (le_of_lt_succ byte.toNat_lt)
    obtain ⟨result, last, done, final, size, sum⟩ := ih (show (byte.toNat * b + carry) / 256 < 2 ^ 56 by omega)
    refine ⟨UInt8.ofNat (byte.toNat * b + carry) :: result, last, ?_, final, congrArg succ size, ?_⟩
    · have fits : ¬ (byte.toNat ≠ 0 ∧ (2 ^ 64 - 1) / byte.toNat < b) := by
        rintro ⟨nonzero, large⟩
        rw [div_lt_iff_lt_mul (pos_of_ne_zero nonzero), Nat.mul_comm] at large
        omega
      rw [multiplyBytes, if_neg fits, if_neg (by omega)]
      simp only [done, Option.map_some]
    · have split := mod_add_div (byte.toNat * b + carry) 256
      rw [value, value, List.length_cons, pow_succ, UInt8.toNat_ofNat']
      linear_combination 256 * sum + split

lemma divideBytes_exact {divisor : Nat} (large : divisor ≤ 2 ^ 56) (bytes : Bytes) {remainder : Nat}
    (below : remainder < divisor) :
    (divideBytes divisor remainder bytes).length = bytes.length ∧
      value (divideBytes divisor remainder bytes).reverse =
        (value bytes.reverse + 256 ^ bytes.length * remainder) / divisor := by
  induction bytes generalizing remainder with
  | nil => simp [divideBytes, value, Nat.div_eq_of_lt below]
  | cons byte rest ih =>
    have positive : 0 < divisor := by omega
    have digit := byte.toNat_lt
    have whole : remainder * 256 % 2 ^ 64 = remainder * 256 := mod_eq_of_lt (by omega)
    have quotient : (remainder * 256 + byte.toNat) / divisor < 256 := by
      rw [div_lt_iff_lt_mul positive]
      omega
    obtain ⟨size, rest_eq⟩ := ih (mod_lt (remainder * 256 + byte.toNat) positive)
    have split := mod_add_div (remainder * 256 + byte.toNat) divisor
    rw [divideBytes, whole]
    refine ⟨congrArg succ size, ?_⟩
    rw [List.reverse_cons, value_concat, rest_eq, List.length_reverse, size, UInt8.toNat_ofNat', mod_eq_of_lt quotient,
      ← Nat.add_mul_div_left _ _ positive, List.reverse_cons, value_concat, List.length_reverse,
        List.length_cons, pow_succ]
    congr 1
    linear_combination 256 ^ rest.length * split

/-- The product is exact, and so is the quotient where it fits. -/
theorem divide_multiply_exact (a : Uint256) {b d : UInt64} (factor : b.toNat < 2 ^ 56) (positive : 0 < d.toNat)
    (divisor : d.toNat ≤ 2 ^ 56) (fits : a.toNat * b.toNat / d.toNat < 2 ^ 256) :
    ∃ product, multiply256x64 a b = some product ∧ value product = a.toNat * b.toNat ∧
      (divide320x64 product d).toNat = a.toNat * b.toNat / d.toNat := by
  obtain ⟨low, carry, done, last, size, sum⟩ := multiplyBytes_exact factor a.data (show 0 < 2 ^ 56 by decide)
  have product : value (low ++ encode 8 carry) = a.toNat * b.toNat := by
    rw [value_append, value_encode (by omega), size]
    exact sum
  refine ⟨low ++ encode 8 carry, by rw [multiply256x64, done]; rfl, product, ?_⟩
  have quotient := (divideBytes_exact divisor (low ++ encode 8 carry).reverse positive).2
  rw [List.reverse_reverse, product] at quotient
  have nonzero : d ≠ 0 := by
    rintro rfl
    cases positive
  rw [divide320x64, if_neg nonzero, quotient]
  exact value_encode fits

theorem divide_multiply_largest : ∃ product, multiply256x64 (.ofNat (2 ^ 256 - 1)) 3 = some product ∧
    value product = (Uint256.ofNat (2 ^ 256 - 1)).toNat * 3 ∧
      (divide320x64 product 4).toNat = (Uint256.ofNat (2 ^ 256 - 1)).toNat * 3 / 4 :=
  divide_multiply_exact _ (by decide) (by decide) (by decide) (by decide)

end Dilithion
