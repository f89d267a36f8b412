import Dilithion.Dfmp.MikScript
import Dilithion.Lib.SlidingWindow
import Dilithion.Node.UtxoApply

/-! The heat of a miner: how many blocks of the observation window it has mined. The tracker keeps the
window as a queue of heights and identities, with a count for every identity in it, and follows the chain
through the callbacks for connected and disconnected blocks. -/

namespace Dilithion.DFMP

open Lib List

def observationWindow : Int := 360

def freeTierThreshold : Int := 12

/-- The window from its oldest entry on, and the number of entries of each identity in it. -/
structure CHeatTracker where
  window : List (Int × Identity)
  heatCache : Table Identity Int

namespace CHeatTracker

def empty : CHeatTracker := ⟨[], ∅⟩

def increment (heatCache : Table Identity Int) (identity : Identity) : Table Identity Int :=
  heatCache.insert identity ((heatCache.lookup identity).getD 0 + 1)

def decrement (heatCache : Table Identity Int) (identity : Identity) : Table Identity Int :=
  match heatCache.lookup identity with
  | none => heatCache
  | some count => if count - 1 ≤ 0 then heatCache.erase identity else heatCache.insert identity (count - 1)

/-- The loop of both callbacks: entries are popped from one end of the window while their heights fall out. -/
def popWhile (outside : Int → Bool) : List (Int × Identity) → Table Identity Int →
    List (Int × Identity) × Table Identity Int
  | [], heatCache => ([], heatCache)
  | entry :: rest, heatCache =>
    if outside entry.1 then popWhile outside rest (decrement heatCache entry.2) else (entry :: rest, heatCache)

variable (tracker : CHeatTracker)

def onBlockConnected (height : Int) (identity : Identity) : CHeatTracker :=
  let (window, heatCache) := popWhile (fun old => decide (old ≤ height - observationWindow))
    (tracker.window ++ [(height, identity)]) (increment tracker.heatCache identity)
  ⟨window, heatCache⟩

def onBlockDisconnected (height : Int) : CHeatTracker :=
  let (window, heatCache) := popWhile (fun last => decide (height ≤ last)) tracker.window.reverse tracker.heatCache
  ⟨window.reverse, heatCache⟩

def getHeat (identity : Identity) : Int := (tracker.heatCache.lookup identity).getD 0

def getUniqueMinerCount : Int := tracker.heatCache.entries.length

def getAllHeat : Table Identity Int := tracker.heatCache

end CHeatTracker

structure HeatTrackers where
  heat : CHeatTracker
  payout : CHeatTracker

structure Callbacks where
  hashes : HashFunctions
  dfmpActivationHeight : Int

def Callbacks.minedBy (callbacks : Callbacks) (block : CBlock) (height : Int) : Option (CTransaction × Identity) :=
  if callbacks.dfmpActivationHeight ≤ height ∧ ¬ block.vtx.isEmpty then
    match CBlockValidator.deserializeBlockTransactions block with
    | .error _ => none
    | .ok [] => none
    | .ok (coinbaseTx :: _) => do
      let txin ← coinbaseTx.vin.head?
      let mikData ← parseMIKFromScriptSig callbacks.hashes txin.scriptSig
      if mikData.identity.isNull then none else some (coinbaseTx, mikData.identity)
  else none

namespace HeatTrackers

def onBlockConnected (callbacks : Callbacks) (trackers : HeatTrackers) (block : CBlock) (height : Int) : HeatTrackers :=
  match callbacks.minedBy block height with
  | none => trackers
  | some (coinbaseTx, identity) =>
    { heat := trackers.heat.onBlockConnected height identity
      payout := match coinbaseTx.vout with
        | [] => trackers.payout
        | txout :: _ => trackers.payout.onBlockConnected height
            (deriveIdentityFromScript callbacks.hashes txout.scriptPubKey) }

def onBlockDisconnected (trackers : HeatTrackers) (height : Int) : HeatTrackers :=
  ⟨trackers.heat.onBlockDisconnected height, trackers.payout.onBlockDisconnected height⟩

end HeatTrackers

open SlidingWindow

def Cached (heatCache : Table Identity Int) (count : Identity → Nat) : Prop :=
  ∀ identity, heatCache.lookup identity = if count identity = 0 then none else some (count identity : Int)

variable {heatCache : Table Identity Int} {count : Identity → Nat}

lemma Cached.congr {other : Identity → Nat} (cached : Cached heatCache count)
    (same : ∀ identity, count identity = other identity) : Cached heatCache other := by
  intro identity
  rw [cached identity, same identity]

lemma Cached.increment (cached : Cached heatCache count) (identity : Identity) :
    Cached (CHeatTracker.increment heatCache identity) fun other =>
      if other = identity then count other + 1 else count other := by
  intro other
  unfold CHeatTracker.increment
  by_cases same : other = identity
  · subst same
    rw [cached other]
    by_cases zero : count other = 0 <;> simp [zero]
  · rw [AList.lookup_insert_ne same, cached other]
    simp [same]

lemma Cached.decrement {identity : Identity}
    (cached : Cached heatCache fun other => if other = identity then count other + 1 else count other) :
    Cached (CHeatTracker.decrement heatCache identity) count := by
  intro other
  have here := cached identity
  simp only [if_true, Nat.add_eq_zero_iff, one_ne_zero, and_false, if_false] at here
  unfold CHeatTracker.decrement
  rw [here]
  dsimp only
  by_cases same : other = identity
  · subst same
    by_cases zero : count other = 0
    · rw [if_pos (by omega), AList.lookup_erase, if_pos zero]
    · rw [if_neg (by omega), AList.lookup_insert, if_neg zero]
      congr 1
      omega
  · have away := cached other
    simp only [same, if_false] at away
    split
    · rw [AList.lookup_erase_ne same, away]
    · rw [AList.lookup_insert_ne same, away]

namespace CHeatTracker

lemma popWhile_window (outside : Int → Bool) (window : List (Int × Identity)) (heatCache : Table Identity Int) :
    (popWhile outside window heatCache).1 = window.dropWhile fun entry => outside entry.1 := by
  induction window generalizing heatCache with
  | nil => rfl
  | cons entry rest ih =>
    unfold popWhile
    split
    case isTrue leaves => rw [ih, dropWhile_cons, if_pos leaves]
    case isFalse stays => rw [dropWhile_cons, if_neg stays]

lemma popWhile_cached (outside : Int → Bool) {window : List (Int × Identity)} {heatCache : Table Identity Int}
    (cached : Cached heatCache fun identity => countOf identity window) :
    Cached (popWhile outside window heatCache).2 fun identity =>
      countOf identity (popWhile outside window heatCache).1 := by
  induction window generalizing heatCache with
  | nil => exact cached
  | cons entry rest ih =>
    unfold popWhile
    split
    case isFalse => exact cached
    case isTrue =>
      exact ih (Cached.decrement (cached.congr fun identity => countOf_cons identity entry rest))

def Sound (tracker : CHeatTracker) : Prop := Cached tracker.heatCache fun identity => countOf identity tracker.window

lemma sound_empty : empty.Sound := fun _ => rfl

variable {tracker : CHeatTracker}

lemma Sound.onBlockConnected (sound : tracker.Sound) (height : Int) (identity : Identity) :
    (tracker.onBlockConnected height identity).Sound :=
  popWhile_cached _ ((sound.increment identity).congr fun other =>
    (countOf_concat other tracker.window (height, identity)).symm)

lemma Sound.onBlockDisconnected (sound : tracker.Sound) (height : Int) :
    (tracker.onBlockDisconnected height).Sound := by
  have backwards : Cached tracker.heatCache fun identity => countOf identity tracker.window.reverse :=
    sound.congr fun identity => (countOf_reverse identity tracker.window).symm
  exact (popWhile_cached (fun last => decide (height ≤ last)) backwards).congr fun identity =>
    (countOf_reverse identity _).symm

structure Answers (tracker : CHeatTracker) (entries : List (Int × Identity)) : Prop where
  heat : ∀ identity, tracker.getHeat identity = countOf identity entries
  uniqueMiners : tracker.getUniqueMinerCount = (entries.map Prod.snd).dedup.length
  allHeat : Cached tracker.getAllHeat fun identity => countOf identity entries

lemma Sound.answers (sound : tracker.Sound) : tracker.Answers tracker.window where
  heat := by
    intro identity
    rw [getHeat, sound identity]
    split <;> simp_all
  uniqueMiners := by
    have present : ∀ identity, identity ∈ tracker.heatCache.keys ↔ identity ∈ (tracker.window.map Prod.snd).dedup := by
      intro identity
      rw [← AList.mem_keys, ← AList.lookup_isSome, sound identity, mem_dedup, ← countOf_pos_iff]
      by_cases none : countOf identity tracker.window = 0
      · simp [none]
      · simp [none, Nat.pos_of_ne_zero none]
    have same := (perm_ext_iff_of_nodup tracker.heatCache.keys_nodup (nodup_dedup _)).mpr present
    rw [getUniqueMinerCount, ← same.length_eq]
    simp [AList.keys, keys]
  allHeat := sound

end CHeatTracker

def fpScale : Int64 := 1000000

/-- A penalty that falls in steps with the age of the identity; a new identity starts at `start`. -/
def maturityPenalty (start : Int64) (steps : List (Int × Int64)) (currentHeight firstSeenHeight : Int) : Int64 :=
  if firstSeenHeight < 0 then start
  else match steps.find? (fun step => decide (currentHeight - firstSeenHeight < step.1)) with
    | some step => step.2
    | none => fpScale

def calculateMaturityPenaltyFPV2 : Int → Int → Int64 :=
  maturityPenalty 3000000 [(100, 3000000), (200, 2500000), (300, 2000000), (400, 1500000)]

def calculatePendingPenaltyFP : Int → Int → Int64 :=
  maturityPenalty 5000000 [(160, 5000000), (320, 4000000), (480, 3000000), (640, 2000000), (800, 1500000)]

def calculatePendingPenaltyFPV31 : Int → Int → Int64 :=
  maturityPenalty 2000000 [(100, 2000000), (200, 1500000), (300, 1250000), (400, 1100000)]

def calculatePendingPenaltyFPV32 : Int → Int → Int64 :=
  maturityPenalty 2500000 [(100, 2500000), (200, 2000000), (300, 1500000), (400, 1250000), (500, 1100000)]

def calculatePendingPenaltyFPV33 : Int → Int → Int64 := calculatePendingPenaltyFPV32

def calculatePendingPenaltyFPV34 : Int → Int → Int64 := calculatePendingPenaltyFPV32

def grow (growth : Int64) : Nat → Int64 → Int64
  | 0, penalty => penalty
  | blocks + 1, penalty => grow growth blocks (penalty * growth / 100)

/-- The free tier widens when few miners are active; without a count it is fixed. -/
def effectiveFreeThreshold (threshold uniqueMiners : Int) : Int :=
  if 0 < uniqueMiners then max threshold (observationWindow / max 1 uniqueMiners) else threshold

def cliffPenalty (threshold : Int) (cliff growth : Int64) (heat uniqueMiners : Int) : Int64 :=
  let free := effectiveFreeThreshold threshold uniqueMiners
  if heat ≤ free then fpScale else grow growth (heat - free - 1).toNat cliff

def calculateHeatMultiplierFP : Int → Int → Int64 := cliffPenalty freeTierThreshold 2000000 158

def calculateHeatMultiplierFPV31 : Int → Int → Int64 := cliffPenalty 36 1500000 108

def calculateHeatMultiplierFPV32 : Int → Int → Int64 := cliffPenalty 12 2000000 158

/-- A ramp behind the free tier up to `linearEnd`, and growth from there. -/
def zonePenalty (free linearEnd : Int) (ramp : Int64 → Int64) (base growth : Int64) (heat : Int) : Int64 :=
  if heat ≤ free then fpScale
  else if heat ≤ linearEnd then fpScale + ramp (Int64.ofInt (heat - free))
  else grow growth (heat - linearEnd).toNat base

def calculateHeatMultiplierFPV33 : Int → Int64 := zonePenalty 12 24 (fun excess => excess * fpScale / 4) 4000000 158

def calculateHeatMultiplierFPV34 (heat : Int) (isVerified : Bool) : Int64 :=
  let freeTier : Int := if isVerified then 12 else 3
  zonePenalty freeTier 24 (fun excess => excess * 3 * fpScale / Int64.ofInt (24 - freeTier)) 4000000 158 heat

def calculateHeatPenaltyFPV2 (blocksInWindow uniqueMiners : Int) : Int64 :=
  let free := effectiveFreeThreshold 20 uniqueMiners
  zonePenalty free (free + 5) (fun excess => 100000 * excess) 1500000 108 blocksInWindow

def calculateTotalMultiplierFPV2 (currentHeight firstSeenHeight blocksInWindow uniqueMiners : Int) : Int64 :=
  calculateMaturityPenaltyFPV2 currentHeight firstSeenHeight * calculateHeatPenaltyFPV2 blocksInWindow uniqueMiners /
    fpScale

/-- The words times the scale, least significant first, and the carry out of the last. -/
def scaleWords : Nat → List Nat → List Nat × Nat
  | carry, [] => ([], carry)
  | carry, word :: rest =>
    let product := (word * 1000000 + carry) % 2 ^ 128
    let (scaled, overflow) := scaleWords (product / 2 ^ 64) rest
    (product % 2 ^ 64 :: scaled, overflow)

def divideWords (divisor : Nat) : Nat → List Nat → List Nat
  | _, [] => []
  | remainder, word :: rest =>
    let dividend := (remainder * 2 ^ 64 + word) % 2 ^ 128
    dividend / divisor % 2 ^ 64 :: divideWords divisor (dividend % divisor) rest

def targetWords (target : Uint256) : List Nat :=
  (List.range 4).map fun index => LittleEndian.value ((target.data.drop (8 * index)).take 8)

def ofWords (words : List Nat) : Uint256 :=
  Uint256.ofNat (words.foldr (fun word higher => word + 2 ^ 64 * higher) 0)

def calculateEffectiveTarget (baseTarget : Uint256) (multiplierFP : Int64) : Uint256 :=
  let divisor := (if multiplierFP < fpScale then fpScale else multiplierFP).toUInt64.toNat
  let (scaled, carry) := scaleWords 0 (targetWords baseTarget)
  let result := ofWords (divideWords divisor carry scaled.reverse).reverse
  -- The target cannot be zero.
  if result.data.all (fun byte => byte == 0) then Uint256.ofNat 1 else result

structure PenaltyHeights where
  dfmpV3ActivationHeight : Int
  dfmpDynamicScalingHeight : Int
  dfmpV31ActivationHeight : Int
  dfmpV32ActivationHeight : Int
  dfmpV33ActivationHeight : Int
  dfmpV34ActivationHeight : Int

/-- What is read about the miner besides its heat: the answers of the identity database (both -1 for an
unknown identity) and of the registry, and the payout identity of the first output. -/
structure MinerRecord where
  identity : Identity
  payoutIdentity : Option Identity
  firstSeen : Int
  lastMined : Int
  isVerified : Bool

variable (heights : PenaltyHeights)

def effectiveFirstSeen (height : Int) (miner : MinerRecord) : Int :=
  if heights.dfmpV3ActivationHeight ≤ height ∧ 0 ≤ miner.firstSeen then
    if 0 ≤ miner.lastMined ∧ 720 < height - miner.lastMined then height - 400 else miner.firstSeen
  else miner.firstSeen

variable (trackers : HeatTrackers)

/-- The higher of the factors for the miner and for its payout address, and the maturity factor. -/
def combinedPenalty (miner : MinerRecord) (maturity : Int64) (factor : CHeatTracker → Identity → Int64) : Int64 :=
  let mikHeatPenalty := factor trackers.heat miner.identity
  let payoutHeatPenalty := match miner.payoutIdentity with
    | none => fpScale
    | some payoutIdentity => factor trackers.payout payoutIdentity
  maturity * max mikHeatPenalty payoutHeatPenalty / fpScale

/-- The multiplier of `CheckProofOfWorkDFMP` at a height. -/
def multiplierFP (height : Int) (miner : MinerRecord) : Int64 :=
  let uniqueMiners := fun tracker : CHeatTracker =>
    if heights.dfmpDynamicScalingHeight ≤ height then tracker.getUniqueMinerCount else 0
  let firstSeen := effectiveFirstSeen heights height miner
  if heights.dfmpV34ActivationHeight ≤ height then
    combinedPenalty trackers miner (calculatePendingPenaltyFPV34 height firstSeen) fun tracker identity =>
      calculateHeatMultiplierFPV34 (tracker.getHeat identity) miner.isVerified
  else if heights.dfmpV33ActivationHeight ≤ height then
    combinedPenalty trackers miner (calculatePendingPenaltyFPV33 height firstSeen) fun tracker identity =>
      calculateHeatMultiplierFPV33 (tracker.getHeat identity)
  else if heights.dfmpV32ActivationHeight ≤ height then
    combinedPenalty trackers miner (calculatePendingPenaltyFPV32 height firstSeen) fun tracker identity =>
      calculateHeatMultiplierFPV32 (tracker.getHeat identity) (uniqueMiners tracker)
  else if heights.dfmpV31ActivationHeight ≤ height then
    combinedPenalty trackers miner (calculatePendingPenaltyFPV31 height firstSeen) fun tracker identity =>
      calculateHeatMultiplierFPV31 (tracker.getHeat identity) (uniqueMiners tracker)
  else if heights.dfmpV3ActivationHeight ≤ height then
    combinedPenalty trackers miner (calculatePendingPenaltyFP height firstSeen) fun tracker identity =>
      calculateHeatMultiplierFP (tracker.getHeat identity) (uniqueMiners tracker)
  else
    calculateTotalMultiplierFPV2 height miner.firstSeen (trackers.heat.getHeat miner.identity)
      (uniqueMiners trackers.heat)

def penalisedTarget (height : Int) (miner : MinerRecord) (baseTarget : Uint256) : Uint256 :=
  calculateEffectiveTarget baseTarget (multiplierFP heights trackers height miner)

lemma penalisedTarget_congr {trackers others : HeatTrackers} {entries payouts : List (Int × Identity)}
    (heat : trackers.heat.Answers entries) (payout : trackers.payout.Answers payouts)
    (heat' : others.heat.Answers entries) (payout' : others.payout.Answers payouts)
    (heights : PenaltyHeights) (height : Int)
    (miner : MinerRecord) (baseTarget : Uint256) :
    penalisedTarget heights trackers height miner baseTarget =
      penalisedTarget heights others height miner baseTarget := by
  have sameHeat (identity : Identity) : trackers.heat.getHeat identity = others.heat.getHeat identity :=
    (heat.heat identity).trans (heat'.heat identity).symm
  have samePayout (identity : Identity) : trackers.payout.getHeat identity = others.payout.getHeat identity :=
    (payout.heat identity).trans (payout'.heat identity).symm
  have sameMiners : trackers.heat.getUniqueMinerCount = others.heat.getUniqueMinerCount :=
    heat.uniqueMiners.trans heat'.uniqueMiners.symm
  have samePayees : trackers.payout.getUniqueMinerCount = others.payout.getUniqueMinerCount :=
    payout.uniqueMiners.trans payout'.uniqueMiners.symm
  simp only [penalisedTarget, multiplierFP, combinedPenalty, sameHeat, samePayout, sameMiners, samePayees]

/-! The effective target as a quotient: five words scaled and divided are the exact product and its quotient. -/

open LittleEndian Nat

lemma value_eq_zero {bytes : Bytes} : value bytes = 0 ↔ ∀ byte ∈ bytes, byte = 0 := by
  induction bytes with
  | nil => simp [value]
  | cons byte rest ih =>
    rw [value, Nat.add_eq_zero_iff, Nat.mul_eq_zero, ih, List.forall_mem_cons, ← UInt8.toNat_inj]
    simp

lemma ofDigits_words (count : Nat) (bytes : Bytes) (size : bytes.length = 8 * count) :
    ofDigits (2 ^ 64) ((List.range count).map fun index => value ((bytes.drop (8 * index)).take 8)) = value bytes := by
  induction count generalizing bytes with
  | zero =>
    rw [List.length_eq_zero_iff.mp size]
    rfl
  | succ count ih =>
    have rest := ih (bytes.drop 8) (by simp [size, Nat.mul_succ])
    have front : (bytes.take 8).length = 8 := by simp [size]
    nth_rw 2 [← bytes.take_append_drop 8]
    rw [value_append, front, ← rest, List.range_succ_eq_map, List.map_cons, List.map_map, ofDigits_cons]
    simp [Function.comp_def, Nat.mul_succ, Nat.add_comm]

/-- Scaling is exact: the carry between two words stays below the scale. -/
lemma scaleWords_exact {words : List Nat} (bounded : ∀ word ∈ words, word < 2 ^ 64) (carry : Nat)
    (small : carry < 1000000) :
    (∀ word ∈ (scaleWords carry words).1, word < 2 ^ 64) ∧ (scaleWords carry words).2 < 1000000 ∧
    (scaleWords carry words).1.length = words.length ∧
    ofDigits (2 ^ 64) (scaleWords carry words).1 + (2 ^ 64) ^ words.length * (scaleWords carry words).2 =
      ofDigits (2 ^ 64) words * 1000000 + carry := by
  induction words generalizing carry with
  | nil => simpa [scaleWords] using small
  | cons word rest ih =>
    obtain ⟨first, others⟩ := List.forall_mem_cons.mp bounded
    have whole : (word * 1000000 + carry) % 2 ^ 128 = word * 1000000 + carry := mod_eq_of_lt (by omega)
    obtain ⟨scaled, overflow, size, sum⟩ := ih others ((word * 1000000 + carry) / 2 ^ 64) (by omega)
    have product := mod_add_div (word * 1000000 + carry) (2 ^ 64)
    rw [scaleWords, whole]
    refine ⟨List.forall_mem_cons.mpr ⟨mod_lt _ (by decide), scaled⟩, overflow, congrArg succ size, ?_⟩
    rw [ofDigits_cons, ofDigits_cons, List.length_cons, pow_succ]
    linear_combination 2 ^ 64 * sum + product

/-- Each quotient digit fits a word because the remainder stays below the divisor. -/
lemma divideWords_exact {divisor : Nat} (fits : divisor < 2 ^ 64) (words : List Nat)
    (bounded : ∀ word ∈ words, word < 2 ^ 64)
    {remainder : Nat} (below : remainder < divisor) :
    (divideWords divisor remainder words).length = words.length ∧
    ofDigits (2 ^ 64) (divideWords divisor remainder words).reverse =
      (ofDigits (2 ^ 64) words.reverse + (2 ^ 64) ^ words.length * remainder) / divisor := by
  induction words generalizing remainder with
  | nil => simp [divideWords, Nat.div_eq_of_lt below]
  | cons word rest ih =>
    obtain ⟨first, others⟩ := List.forall_mem_cons.mp bounded
    have whole : (remainder * 2 ^ 64 + word) % 2 ^ 128 = remainder * 2 ^ 64 + word := mod_eq_of_lt (by omega)
    have digit : (remainder * 2 ^ 64 + word) / divisor < 2 ^ 64 := by
      rw [Nat.div_lt_iff_lt_mul (by omega)]
      nlinarith
    have positive : 0 < divisor := by omega
    obtain ⟨size, quotient⟩ := ih others (mod_lt (remainder * 2 ^ 64 + word) positive)
    have dividend := mod_add_div (remainder * 2 ^ 64 + word) divisor
    simp only [divideWords, whole, mod_eq_of_lt digit, List.length_cons, size, ofDigits_reverse_cons, quotient]
    refine ⟨trivial, ?_⟩
    generalize 2 ^ 64 = base at *
    rw [← Nat.add_mul_div_left _ _ positive, pow_succ]
    congr 1
    linear_combination base ^ rest.length * dividend

lemma ofWords_eq (words : List Nat) : ofWords words = .ofNat (ofDigits (2 ^ 64) words) := by
  simp only [ofWords, ofDigits_eq_foldr, Nat.cast_id]

lemma divisor_eq (multiplierFP : Int64) :
    (if multiplierFP < fpScale then fpScale else multiplierFP).toUInt64.toNat =
      max multiplierFP.toInt.toNat 1000000 := by
  have scale : fpScale.toInt = 1000000 := by decide
  split
  case isTrue low =>
    have less := Int64.lt_iff_toInt_lt.mp low
    rw [max_eq_right (by omega)]
    decide
  case isFalse high =>
    have least := Int64.le_iff_toInt_le.mp (Int64.not_lt.mp high)
    rw [Int64.toNat_toUInt64_of_le (Int64.le_iff_toInt_le.mpr (le_trans (by decide) least)), max_eq_left (by omega)]
    rfl

lemma toNat_atLeastOne {target : Nat} (small : target < 256 ^ 32) :
    (if (Uint256.ofNat target).data.all (fun byte => byte == 0) then Uint256.ofNat 1 else Uint256.ofNat target).toNat =
      max 1 target := by
  have denotes : (Uint256.ofNat target).toNat = target := value_encode small
  have zero : (Uint256.ofNat target).data.all (fun byte => byte == 0) = true ↔ target = 0 := by
    nth_rw 2 [← denotes]
    rw [Uint256.toNat, value_eq_zero]
    simp
  split
  case isTrue null =>
    rw [zero.mp null]
    decide
  case isFalse positive => rw [denotes, max_eq_right (Nat.one_le_iff_ne_zero.mpr (mt zero.mpr positive))]

lemma toNat_effectiveTarget (baseTarget : Uint256) (multiplierFP : Int64) :
    (calculateEffectiveTarget baseTarget multiplierFP).toNat =
      max 1 (baseTarget.toNat * 1000000 / max multiplierFP.toInt.toNat 1000000) := by
  have bounded : ∀ word ∈ targetWords baseTarget, word < 2 ^ 64 := by
    intro word member
    obtain ⟨index, -, rfl⟩ := List.mem_map.mp member
    exact (value_lt _).trans_le (Nat.pow_le_pow_right (by decide) (List.length_take_le 8 _))
  obtain ⟨scaled, overflow, size, sum⟩ := scaleWords_exact bounded 0 (by decide)
  have fits := UInt64.toNat_lt (if multiplierFP < fpScale then fpScale else multiplierFP).toUInt64
  have quotient := (divideWords_exact fits (scaleWords 0 (targetWords baseTarget)).1.reverse (by simpa using scaled)
    (overflow.trans_le (divisor_eq multiplierFP ▸ le_max_right ..))).2
  have small : baseTarget.toNat * 1000000 / max multiplierFP.toInt.toNat 1000000 < 256 ^ 32 := by
    have whole := Nat.div_le_div_left (le_max_right multiplierFP.toInt.toNat 1000000) (by decide)
      (a := baseTarget.toNat * 1000000)
    rw [Nat.mul_div_cancel _ (by decide)] at whole
    exact whole.trans_lt baseTarget.toNat_lt
  rw [List.reverse_reverse, List.length_reverse, size, sum, targetWords, ofDigits_words 4 _ (by simp),
    Nat.add_zero, divisor_eq]
    at quotient
  simp only [calculateEffectiveTarget, ofWords_eq, divisor_eq, targetWords, quotient]
  exact toNat_atLeastOne small

theorem effectiveTarget_exact (baseTarget : Uint256) (multiplierFP : Int64) :
    (calculateEffectiveTarget baseTarget multiplierFP).toNat =
      max 1 (baseTarget.toNat * 1000000 / max multiplierFP.toInt.toNat 1000000) ∧
    (calculateEffectiveTarget baseTarget multiplierFP).toNat ≤ max 1 baseTarget.toNat ∧
    (∀ higher : Uint256, baseTarget.toNat ≤ higher.toNat →
      (calculateEffectiveTarget baseTarget multiplierFP).toNat ≤ (calculateEffectiveTarget higher multiplierFP).toNat) ∧
    (∀ larger, multiplierFP ≤ larger →
      (calculateEffectiveTarget baseTarget larger).toNat ≤ (calculateEffectiveTarget baseTarget multiplierFP).toNat) ∧
    (calculateEffectiveTarget baseTarget fpScale).toNat = max 1 baseTarget.toNat := by
  simp only [toNat_effectiveTarget]
  have divisor := le_max_right multiplierFP.toInt.toNat 1000000
  refine ⟨trivial, max_le_max_left 1 ?_, fun higher above => ?_, fun larger above => ?_, ?_⟩
  · exact (Nat.div_le_div_left divisor (by decide)).trans_eq (Nat.mul_div_cancel _ (by decide))
  · exact max_le_max_left 1 (Nat.div_le_div_right (Nat.mul_le_mul_right _ above))
  · have order := Int64.le_iff_toInt_le.mp above
    exact max_le_max_left 1 (Nat.div_le_div_left (max_le_max_right _ (by omega)) (by omega))
  · change max 1 (baseTarget.toNat * 1000000 / 1000000) = _
    rw [Nat.mul_div_cancel _ (by decide)]

/-- A base target of zero is raised to one. -/
theorem effectiveTarget_of_zero : ¬ (calculateEffectiveTarget .null fpScale).toNat ≤ Uint256.toNat .null := by
  decide

structure Follower where
  blocks : List CBlock
  trackers : HeatTrackers

inductive ChainOp where
  | connect (block : CBlock)
  | disconnect

namespace Follower

def empty : Follower := ⟨[], ⟨.empty, .empty⟩⟩

def step (callbacks : Callbacks) (follower : Follower) : ChainOp → Follower
  | .connect block =>
    ⟨block :: follower.blocks, follower.trackers.onBlockConnected callbacks block follower.blocks.length⟩
  | .disconnect =>
    match follower.blocks with
    | [] => follower
    | _ :: below => ⟨below, follower.trackers.onBlockDisconnected below.length⟩

def run (callbacks : Callbacks) (history : List ChainOp) : Follower := history.foldl (step callbacks) .empty

end Follower

abbrev EntryOf := CBlock → Int → Option Identity

variable (callbacks : Callbacks)

def Callbacks.mikEntry : EntryOf := fun block height => (callbacks.minedBy block height).map Prod.snd

def Callbacks.payoutEntry : EntryOf := fun block height =>
  (callbacks.minedBy block height).bind fun mined =>
    mined.1.vout.head?.map fun txout => deriveIdentityFromScript callbacks.hashes txout.scriptPubKey

def chainEntries (entryOf : EntryOf) : List CBlock → List (Int × Option Identity)
  | [] => []
  | block :: below => ((below.length : Int), entryOf block below.length) :: chainEntries entryOf below

def recentEntries (entryOf : EntryOf) (blocks : List CBlock) : List (Int × Identity) :=
  ((chainEntries entryOf blocks).filterMap fun (height, entry) =>
    if height + observationWindow ≤ blocks.length - 1 then none
    else entry.map fun identity => (height, identity)).reverse

/-- The blocks of the chain with the highest entry recorded since each was connected. -/
def seats (entryOf : EntryOf) (history : List ChainOp) : List (Seat Identity) :=
  history.foldl (fun below op => match op with
    | .connect block => push below (entryOf block below.length)
    | .disconnect => below.tail) []

lemma length_chainEntries (entryOf : EntryOf) (blocks : List CBlock) :
    (chainEntries entryOf blocks).length = blocks.length := by
  induction blocks with
  | nil => rfl
  | cons block below ih => simp [chainEntries, ih]

structure Follows (entryOf : EntryOf) (blocks : List CBlock) (tracker : CHeatTracker)
    (seats : List (Seat Identity)) : Prop where
  sound : tracker.Sound
  window : tracker.window = kept observationWindow seats
  stacked : Stacked seats
  shape : (seats.map fun seat => (seat.height, seat.entry)) = chainEntries entryOf blocks

namespace Follows

variable {entryOf : EntryOf} {blocks : List CBlock} {tracker : CHeatTracker} {seats : List (Seat Identity)}

lemma length_eq (follows : Follows entryOf blocks tracker seats) : seats.length = blocks.length := by
  rw [← length_chainEntries entryOf, ← follows.shape, length_map]

lemma empty (entryOf : EntryOf) : Follows entryOf [] .empty [] where
  sound := CHeatTracker.sound_empty
  window := rfl
  stacked := trivial
  shape := rfl

lemma connect (follows : Follows entryOf blocks tracker seats) (block : CBlock) : Follows entryOf (block :: blocks)
    ((entryOf block blocks.length).elim tracker fun identity => tracker.onBlockConnected blocks.length identity)
    (push seats (entryOf block seats.length)) := by
  rw [← follows.length_eq]
  cases entry : entryOf block seats.length with
  | none =>
    refine ⟨follows.sound, follows.window.trans (kept_push_none _ _).symm, follows.stacked.push none, ?_⟩
    simp [push, chainEntries, ← follows.length_eq, entry, follows.shape]
  | some identity =>
    refine ⟨follows.sound.onBlockConnected _ _, ?_, follows.stacked.push _, ?_⟩
    · rw [kept_push_some (by decide) follows.stacked, ← follows.window]
      exact CHeatTracker.popWhile_window _ _ _
    · simp [push, chainEntries, ← follows.length_eq, entry, ← follows.shape]

lemma disconnect {block : CBlock} (follows : Follows entryOf (block :: blocks) tracker seats) :
    Follows entryOf blocks (tracker.onBlockDisconnected blocks.length) seats.tail := by
  cases seats with
  | nil => cases follows.shape
  | cons top below =>
    have shape := (cons.inj follows.shape).2
    have length : below.length = blocks.length := by simpa using follows.length_eq
    refine ⟨follows.sound.onBlockDisconnected _, ?_, follows.stacked.pop, shape⟩
    refine (congrArg reverse (CHeatTracker.popWhile_window _ _ _)).trans ?_
    rw [follows.window, ← length]
    exact (kept_pop follows.stacked).symm

lemma bottom (follows : Follows entryOf [] tracker seats) : Follows entryOf [] tracker seats.tail := by
  have length := follows.length_eq
  cases seats with
  | nil => exact follows
  | cons top below => simp at length

lemma recent_eq (follows : Follows entryOf blocks tracker seats) :
    recent observationWindow seats = recentEntries entryOf blocks := by
  rw [recent, recentEntries, ← follows.shape, follows.length_eq]
  simp [Seat.item, Seat.outside]

/-- The answers are those of the chain exactly if every eviction was timely. -/
lemma answers_iff (follows : Follows entryOf blocks tracker seats) :
    tracker.Answers (recentEntries entryOf blocks) ↔ Timely observationWindow seats := by
  have shown := follows.sound.answers
  rw [← follows.recent_eq]
  constructor
  · intro answers
    refine timely_of_counts follows.stacked fun identity => ?_
    have same := (shown.heat identity).symm.trans (answers.heat identity)
    rw [follows.window] at same
    exact Int.ofNat_inj.mp same
  · intro timely
    rw [← kept_eq_recent timely, ← follows.window]
    exact shown

end Follows

lemma heat_onBlockConnected (trackers : HeatTrackers) (block : CBlock) (height : Int) :
    (trackers.onBlockConnected callbacks block height).heat =
      (callbacks.mikEntry block height).elim trackers.heat fun identity =>
        trackers.heat.onBlockConnected height identity := by
  unfold HeatTrackers.onBlockConnected Callbacks.mikEntry
  cases callbacks.minedBy block height <;> rfl

lemma payout_onBlockConnected (trackers : HeatTrackers) (block : CBlock) (height : Int) :
    (trackers.onBlockConnected callbacks block height).payout =
      (callbacks.payoutEntry block height).elim trackers.payout fun identity =>
        trackers.payout.onBlockConnected height identity := by
  unfold HeatTrackers.onBlockConnected Callbacks.payoutEntry
  cases callbacks.minedBy block height with
  | none => rfl
  | some mined =>
    obtain ⟨coinbaseTx, identity⟩ := mined
    cases outputs : coinbaseTx.vout <;> simp [outputs]

lemma follows_run (history : List ChainOp) :
    Follows callbacks.mikEntry (Follower.run callbacks history).blocks (Follower.run callbacks history).trackers.heat
        (seats callbacks.mikEntry history) ∧
      Follows callbacks.payoutEntry (Follower.run callbacks history).blocks
        (Follower.run callbacks history).trackers.payout
        (seats callbacks.payoutEntry history) := by
  induction history using reverseRecOn with
  | nil => exact ⟨Follows.empty _, Follows.empty _⟩
  | append_singleton history op ih =>
    obtain ⟨heat, payout⟩ := ih
    unfold Follower.run seats at heat payout ⊢
    simp only [foldl_append, foldl_cons, foldl_nil]
    generalize history.foldl (Follower.step callbacks) .empty = before at heat payout ⊢
    cases op with
    | connect block =>
      refine ⟨?_, ?_⟩
      · rw [Follower.step, heat_onBlockConnected]
        exact heat.connect block
      · rw [Follower.step, payout_onBlockConnected]
        exact payout.connect block
    | disconnect =>
      obtain ⟨blocks, trackers⟩ := before
      cases blocks with
      | nil => exact ⟨heat.bottom, payout.bottom⟩
      | cons block below => exact ⟨heat.disconnect, payout.disconnect⟩

def firstMiner : Identity := ⟨List.replicate 20 7, rfl⟩

/-- Pays to a script that anyone can spend, for a miner known from an earlier registration. -/
def referenceReward : CTransaction :=
  ⟨1, [⟨⟨.null, 0xFFFFFFFF⟩, [1, 1, 0xDF, 0x02] ++ firstMiner.data ++ List.replicate 3309 9, 0xFFFFFFFF⟩],
    [⟨5000000000, [0x51]⟩], 0⟩

def minerBlock : CBlock := blockOf .null [referenceReward]

def bareBlock : CBlock := blockOf .null []

def minerCallbacks : Callbacks where
  hashes := .ofTable [([0x51], .ofNat 0xe882bb080243e8cd5df53b70ae0f900dd440b77e33b4346a333ec2daa6a286ba)]
  dfmpActivationHeight := 0

def coolingHistory : List ChainOp := List.replicate 13 (.connect minerBlock) ++ List.replicate 347 (.connect bareBlock)

/-- After any history the trackers count the last 360 heights of the chain exactly if every entry was evicted
in time; and two nodes with one chain for which that holds put the same target to every miner. -/
theorem heat_exact_iff (callbacks : Callbacks) (history : List ChainOp) :
    ((Follower.run callbacks history).trackers.heat.Answers
        (recentEntries callbacks.mikEntry (Follower.run callbacks history).blocks) ↔
      Timely observationWindow (seats callbacks.mikEntry history)) ∧
    ((Follower.run callbacks history).trackers.payout.Answers
        (recentEntries callbacks.payoutEntry (Follower.run callbacks history).blocks) ↔
      Timely observationWindow (seats callbacks.payoutEntry history)) ∧
    ∀ other, (Follower.run callbacks other).blocks = (Follower.run callbacks history).blocks →
      (∀ one ∈ [history, other], Timely observationWindow (seats callbacks.mikEntry one) ∧
        Timely observationWindow (seats callbacks.payoutEntry one)) →
      ∀ heights height miner baseTarget,
        penalisedTarget heights (Follower.run callbacks history).trackers height miner baseTarget =
          penalisedTarget heights (Follower.run callbacks other).trackers height miner baseTarget := by
  obtain ⟨heat, payout⟩ := follows_run callbacks history
  refine ⟨heat.answers_iff, payout.answers_iff, fun other sameChain timely heights height miner baseTarget => ?_⟩
  obtain ⟨otherHeat, otherPayout⟩ := follows_run callbacks other
  obtain ⟨timelyHeat, timelyPayout⟩ := timely history (by simp)
  obtain ⟨otherTimelyHeat, otherTimelyPayout⟩ := timely other (by simp)
  rw [sameChain] at otherHeat otherPayout
  exact penalisedTarget_congr (heat.answers_iff.mpr timelyHeat) (payout.answers_iff.mpr timelyPayout)
    (otherHeat.answers_iff.mpr otherTimelyHeat)
      (otherPayout.answers_iff.mpr otherTimelyPayout) heights height miner baseTarget

def evictingHistory : List ChainOp := coolingHistory ++ [.connect minerBlock]

/-- The last of fourteen blocks evicts the first, also where another block has come and gone before. -/
theorem heat_exact_iff_detour :
    (Follower.run minerCallbacks evictingHistory).trackers.heat.getHeat firstMiner = 13 ∧
    (Follower.run minerCallbacks (.connect bareBlock :: .disconnect :: evictingHistory)).blocks =
        (Follower.run minerCallbacks evictingHistory).blocks ∧
      ∀ heights height miner baseTarget,
        penalisedTarget heights (Follower.run minerCallbacks evictingHistory).trackers height miner baseTarget =
          penalisedTarget heights (Follower.run minerCallbacks
            (.connect bareBlock :: .disconnect :: evictingHistory)).trackers
            height miner baseTarget :=
  ⟨by decide +kernel, rfl, (heat_exact_iff minerCallbacks evictingHistory).2.2
    (.connect bareBlock :: .disconnect :: evictingHistory) rfl (by decide +kernel)⟩

def coolingHeights : PenaltyHeights := ⟨0, 0, 0, 0, 0, 1000000⟩

/-- The thirteenth block of the window is lost when a block at height 360 comes and goes. -/
theorem heat_forgets_on_disconnect :
    (Follower.run minerCallbacks (coolingHistory ++ [.connect minerBlock, .disconnect])).blocks =
        (Follower.run minerCallbacks coolingHistory).blocks ∧
      (Follower.run minerCallbacks coolingHistory).trackers.heat.getHeat firstMiner = 13 ∧
      (Follower.run minerCallbacks (coolingHistory ++ [.connect minerBlock, .disconnect])).trackers.heat.getHeat
        firstMiner = 12 ∧
      penalisedTarget coolingHeights (Follower.run minerCallbacks coolingHistory).trackers 360
          ⟨firstMiner, none, 0, 12, false⟩ (.ofNat (2 ^ 240)) ≠
        penalisedTarget coolingHeights
          (Follower.run minerCallbacks (coolingHistory ++ [.connect minerBlock, .disconnect])).trackers 360
          ⟨firstMiner, none, 0, 12, false⟩ (.ofNat (2 ^ 240)) := by
  refine ⟨?_, by decide +kernel⟩
  unfold Follower.run
  rw [foldl_append]
  rfl

end Dilithion.DFMP
