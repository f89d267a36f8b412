import Dilithion.Consensus.Params

/-! The checks on blocks that need no chain: the subsidy schedule, the coinbase and its bound, and the transactions of
a block. What the schedule issues stays within the cap exactly for some of its parameters. -/

namespace Dilithion

open Lib Lib.Decoder LittleEndian CTransaction

abbrev Check := Except String Unit

namespace CBlockValidator

variable (params : ChainParams) (nHeight : UInt32)

def calculateBlockSubsidy : UInt64 :=
  let nHalvings := (nHeight.toUInt64 / params.halvingInterval).toUInt32
  if 64 ≤ nHalvings then 0 else params.initialReward >>> nHalvings.toUInt64

/-- One level of the tree: neighbours are hashed together, an odd last hash with itself. -/
def merkleLevel (H : HashFunctions) : List Uint256 → List Uint256
  | [] => []
  | [last] => [H.sha3_256 (last.data ++ last.data)]
  | left :: right :: rest => H.sha3_256 (left.data ++ right.data) :: merkleLevel H rest

-- A level of `n > 1` hashes has `(n + 1) / 2 < n` parents, so the number of leaves bounds the levels.
def merkleClimb (H : HashFunctions) : Nat → List Uint256 → Uint256
  | _, [] => .null
  | _, [root] => root
  | 0, _ => .null
  | levels + 1, level => merkleClimb H levels (merkleLevel H level)

def buildMerkleRoot (H : HashFunctions) (transactions : List CTransaction) : Uint256 :=
  merkleClimb H transactions.length (transactions.map (getHash H))

def verifyMerkleRoot (H : HashFunctions) (block : CBlock) (transactions : List CTransaction) : Check :=
  if buildMerkleRoot H transactions = block.hashMerkleRoot then .ok () else .error "Merkle root mismatch"

def deserializeTxCount : Decoder Nat := do
  let first ← takeBytes 1 "Incomplete transaction count"
  if value first < 253 then
    return value first
  else if value first = 253 then
    return value (← takeBytes 2 "Incomplete transaction count (253)")
  else if value first = 254 then
    return value (← takeBytes 4 "Incomplete transaction count (254)")
  else
    throw "Unsupported transaction count encoding (255)"

/-- The transaction at `index`, with the index in its error texts. -/
def deserializeTransactionAt (index : Nat) : Decoder CTransaction := do
  let data ← remaining
  require (¬ data.isEmpty) ("Incomplete transaction data at index " ++ toString index)
  mapError (fun error => "Failed to deserialize transaction " ++ toString index ++ ": " ++ error) deserialize

def deserializeBlockBody : Decoder (List CTransaction) := do
  let data ← remaining
  require (¬ data.isEmpty) "Block has no transaction data"
  let txCount ← deserializeTxCount
  require (txCount ≠ 0) "Block has zero transactions"
  require (txCount ≤ 100000) "Too many transactions in block"
  let transactions ← many deserializeTransactionAt 0 txCount
  let rest ← remaining
  require rest.isEmpty ("Extra data after last transaction (" ++ toString rest.length ++ " bytes remaining)")
  return transactions

def deserializeBlockTransactions (block : CBlock) : Except String (List CTransaction) :=
  (deserializeBlockBody.run block.vtx).map Prod.fst

lemma script_bound_of_deserializeBlockTransactions {block : CBlock} {transactions : List CTransaction}
    (decoded : deserializeBlockTransactions block = .ok transactions) :
    ∀ tx ∈ transactions, ∀ txout ∈ tx.vout, txout.scriptPubKey.length ≤ 10000 := by
  have bounded : Yields deserializeBlockBody
      (fun transactions => ∀ tx ∈ transactions, ∀ txout ∈ tx.vout, txout.scriptPubKey.length ≤ 10000) :=
    Yields.then fun _ => Yields.then fun _ => Yields.then fun count => Yields.then fun _ => Yields.then fun _ =>
      Yields.bind (Yields.many (fun _ => Yields.then fun _ => Yields.then fun _ => deserialize_yields.mapError _) 0
          count) fun _ each =>
        Yields.then fun _ => Yields.then fun _ => Yields.pure each
  cases body : deserializeBlockBody.run block.vtx with
  | error text => simp [deserializeBlockTransactions, body, Except.map] at decoded
  | ok result =>
    have same : result.1 = transactions := by
      simpa [deserializeBlockTransactions, body, Except.map] using decoded
    exact same ▸ bounded block.vtx result.1 result.2 body

/-- The key hash of a standard pay-to-public-key-hash script, and nothing for any other script. -/
def extractPubKeyHash (script : Bytes) : Bytes :=
  if script.length = 25 ∧ script.take 3 = [0x76, 0xa9, 0x14] ∧ script.drop 23 = [0x88, 0xac] then
    (script.drop 3).take 20
  else []

/-- Sum with the overflow test of the source; `none` on wrap-around. -/
def sumOutputs : UInt64 → List CTxOut → Option UInt64
  | total, [] => some total
  | total, output :: rest =>
    if total + output.nValue < total then none else sumOutputs (total + output.nValue) rest

/-- Whether `out` pays the contribution address, with the error when it pays too little. -/
def paysContribution (pubkeyHash : Bytes) (required : UInt64) (label : String) (out : CTxOut) : Except String Bool :=
  if extractPubKeyHash out.scriptPubKey = pubkeyHash then
    if out.nValue < required then
      .error (label ++ " output insufficient: got " ++ toString out.nValue ++ ", required " ++ toString required)
    else .ok true
  else .ok false

/-- Scans the outputs in order; the flags say which contribution outputs have been seen. -/
def findContributions (requiredDevFund requiredDevReward : UInt64) :
    Bool → Bool → List CTxOut → Except String (Bool × Bool)
  | foundDevFund, foundDevReward, [] => .ok (foundDevFund, foundDevReward)
  | foundDevFund, foundDevReward, out :: rest => do
    let fund ← paysContribution Consensus.devFundPubkeyHash requiredDevFund "Dev Fund" out
    let reward ← paysContribution Consensus.devRewardPubkeyHash requiredDevReward "Dev Reward" out
    findContributions requiredDevFund requiredDevReward (foundDevFund || fund) (foundDevReward || reward) rest

variable (coinbase : CTransaction)

def checkMiningContribution (nHeight : UInt32) : Check := do
  let taxTotal := calculateBlockSubsidy params nHeight * Consensus.miningTaxPercent / 100
  let requiredDevFund := taxTotal * Consensus.devFundShare / 100
  if coinbase.vout.length < 3 then
    throw "Coinbase must have at least 3 outputs for mining development contribution"
  let (foundDevFund, foundDevReward) ←
    findContributions requiredDevFund (taxTotal - requiredDevFund) false false coinbase.vout
  if ¬ foundDevFund then
    throw "Missing Dev Fund output in coinbase (address: DJrywx4AsVQSPLZCKRdg8erZdPMNaRSrKq)"
  if ¬ foundDevReward then
    throw "Missing Dev Reward output in coinbase (address: DRne9ygVbQJFKma1pyEMPpyRbjmVKNcbWe)"

def checkCoinbaseStructure : Check := do
  if ¬ coinbase.isCoinBase then throw "Transaction is not a coinbase"
  match coinbase.vin with
  | [txin] =>
    if ¬ txin.prevout.isNull then throw "Coinbase input must have null prevout"
    if txin.scriptSig.length < 2 ∨ txin.scriptSig.length > 20000 then
      throw "Coinbase scriptSig size invalid"
  | _ => throw "Coinbase must have exactly one input"
  if coinbase.vout.isEmpty then throw "Coinbase must have at least one output"

/-- Subsidy plus fees; fees that are not positive add nothing, and `none` is wrap-around. -/
def maxCoinbaseValue (totalFees : CAmount) : Option UInt64 :=
  let subsidy := calculateBlockSubsidy params nHeight
  if 0 < totalFees then
    if subsidy + totalFees.toUInt64 < subsidy then none else some (subsidy + totalFees.toUInt64)
  else some subsidy

def checkCoinbaseValue (nHeight : UInt32) (totalFees : CAmount) : Check :=
  match maxCoinbaseValue params nHeight totalFees with
  | none => .error "Coinbase value calculation overflow"
  | some nMaxValue =>
    match sumOutputs 0 coinbase.vout with
    | none => .error "Coinbase output value overflow"
    | some nCoinbaseValue =>
      if nCoinbaseValue > nMaxValue then .error "Coinbase value exceeds subsidy + fees" else .ok ()

def checkCoinbase (nHeight : UInt32) (totalFees : CAmount) : Check := do
  checkCoinbaseStructure coinbase
  -- Genesis may pre-fund addresses, so its value is not checked.
  if nHeight = 0 then return
  checkCoinbaseValue params coinbase nHeight totalFees
  if params.isTestnet then return
  checkMiningContribution params coinbase nHeight

def checkDuplicateTxids (seenTxIds : List Uint256) : List Uint256 → Check
  | [] => .ok ()
  | txid :: rest =>
    if txid ∈ seenTxIds then .error ("Duplicate transaction in block: " ++ txid.getHex)
    else checkDuplicateTxids (txid :: seenTxIds) rest

def checkNoDuplicateTransactions (H : HashFunctions) (transactions : List CTransaction) : Check :=
  checkDuplicateTxids [] (transactions.map (getHash H))

variable (transactions : List CTransaction)

def spentOutPoints : List COutPoint :=
  (transactions.filter (fun tx => ¬ tx.isCoinBase)).flatMap (fun tx => tx.vin.map CTxIn.prevout)

def checkSpentOnce (spentOutputs : List COutPoint) : List COutPoint → Check
  | [] => .ok ()
  | prevout :: rest =>
    if prevout ∈ spentOutputs then .error "Double-spend detected within block"
    else checkSpentOnce (prevout :: spentOutputs) rest

def checkNoDoubleSpends : Check :=
  checkSpentOnce [] (spentOutPoints transactions)

end CBlockValidator

open CBlockValidator Finset

/-- The initial reward and the halving interval of a network. -/
def Network.schedule : Network → UInt64 × UInt64
  | .mainnet | .testnet | .regtest => (50 * 100000000, 210000)
  | .dilv => (100 * 100000000, 1050000)

namespace ChainParams

variable (params : ChainParams)

def schedule : UInt64 × UInt64 := (params.initialReward, params.halvingInterval)

def emitted (height : UInt32) : Nat :=
  ∑ h ∈ Finset.range (height.toNat + 1), (calculateBlockSubsidy params (.ofNat h)).toNat

def heightsOf (height : UInt32) (halving : Nat) : Finset Nat := (Finset.range (height.toNat + 1)).filter fun h =>
  halving * params.halvingInterval.toNat ≤ h ∧ h < (halving + 1) * params.halvingInterval.toNat

/-- The emission is the sum over the halvings, bounded, and for a network within the range of amounts. -/
def EmissionSound (height : UInt32) : Prop :=
  params.emitted height = ∑ halving ∈ Finset.range (height.toNat / params.halvingInterval.toNat + 1),
      params.initialReward.toNat / 2 ^ halving * (params.heightsOf height halving).card ∧
    params.emitted height ≤ 2 * params.initialReward.toNat * params.halvingInterval.toNat ∧
    ∀ network : Network, params.schedule = network.schedule → (params.emitted height : Int) ≤ maxMoney.toInt

variable {params} {height : UInt32}

lemma subsidy_eq (height : UInt32) : (calculateBlockSubsidy params height).toNat =
    params.initialReward.toNat / 2 ^ (height.toNat / params.halvingInterval.toNat) := by
  have small : height.toNat / params.halvingInterval.toNat < 2 ^ 32 := (Nat.div_le_self _ _).trans_lt height.toNat_lt
  have halvings : (height.toUInt64 / params.halvingInterval).toUInt32.toNat =
      height.toNat / params.halvingInterval.toNat := by
    simpa using small
  unfold calculateBlockSubsidy
  dsimp only
  split
  case isTrue late =>
    rw [UInt32.le_iff_toNat_le, halvings] at late
    have large : params.initialReward.toNat < 2 ^ (height.toNat / params.halvingInterval.toNat) :=
      params.initialReward.toNat_lt.trans_le (Nat.pow_le_pow_right (by decide) late)
    rw [Nat.div_eq_of_lt large]
    rfl
  case isFalse early =>
    simp only [UInt32.le_iff_toNat_le, halvings, UInt32.reduceToNat, not_le] at early
    rw [UInt64.toNat_shiftRight, UInt32.toNat_toUInt64, halvings, Nat.mod_eq_of_lt early, Nat.shiftRight_eq_div_pow]

lemma emitted_eq (positive : params.halvingInterval ≠ 0) (height : UInt32) :
    params.emitted height = ∑ halving ∈ range (height.toNat / params.halvingInterval.toNat + 1),
      params.initialReward.toNat / 2 ^ halving * (params.heightsOf height halving).card := by
  have interval : 0 < params.halvingInterval.toNat := Nat.pos_of_ne_zero fun zero => positive (UInt64.toNat.inj zero)
  have grouped : ∀ h ∈ range (height.toNat + 1),
      h / params.halvingInterval.toNat ∈ range (height.toNat / params.halvingInterval.toNat + 1) := by
    intro h inside
    rw [mem_range, Nat.lt_succ_iff] at inside ⊢
    exact Nat.div_le_div_right inside
  rw [emitted, ← sum_fiberwise_of_maps_to grouped]
  refine sum_congr rfl fun halving _ => ?_
  have fibre : (range (height.toNat + 1)).filter (fun h => h / params.halvingInterval.toNat = halving) =
      params.heightsOf height halving := by
    refine filter_congr fun h _ => ?_
    rw [Nat.div_eq_iff interval, Nat.succ_mul]
    omega
  have same : ∀ h ∈ params.heightsOf height halving,
      (calculateBlockSubsidy params (.ofNat h)).toNat = params.initialReward.toNat / 2 ^ halving := by
    intro h inside
    rw [← fibre, mem_filter, mem_range] at inside
    rw [subsidy_eq, UInt32.toNat_ofNat_of_lt' ((Nat.lt_succ_iff.mp inside.1).trans_lt height.toNat_lt), inside.2]
  rw [fibre, sum_congr rfl same, sum_const, nsmul_eq_mul, Nat.cast_id, mul_comm]

lemma card_heightsOf_le (height : UInt32) (halving : Nat) :
    (params.heightsOf height halving).card ≤ params.halvingInterval.toNat := by
  have within : params.heightsOf height halving ⊆
      Finset.Ico (halving * params.halvingInterval.toNat) ((halving + 1) * params.halvingInterval.toNat) := by
    intro h inside
    exact mem_Ico.mpr (mem_filter.mp inside).2
  refine (card_le_card within).trans ?_
  rw [Nat.card_Ico, Nat.succ_mul, Nat.add_sub_cancel_left]

lemma emitted_le (positive : params.halvingInterval ≠ 0) (height : UInt32) :
    params.emitted height ≤ 2 * params.initialReward.toNat * params.halvingInterval.toNat := by
  rw [emitted_eq positive]
  calc ∑ halving ∈ range (height.toNat / params.halvingInterval.toNat + 1),
        params.initialReward.toNat / 2 ^ halving * (params.heightsOf height halving).card
      ≤ ∑ halving ∈ range (height.toNat / params.halvingInterval.toNat + 1),
          params.initialReward.toNat / 2 ^ halving * params.halvingInterval.toNat :=
        sum_le_sum fun halving _ => Nat.mul_le_mul_left _ (card_heightsOf_le height halving)
    _ = (∑ halving ∈ range (height.toNat / params.halvingInterval.toNat + 1),
          params.initialReward.toNat / 2 ^ halving) * params.halvingInterval.toNat := (sum_mul ..).symm
    _ ≤ 2 * params.initialReward.toNat * params.halvingInterval.toNat := by
        refine Nat.mul_le_mul_right _ ?_
        have bound := Nat.geom_sum_le (le_refl 2) params.initialReward.toNat
          (height.toNat / params.halvingInterval.toNat + 1)
        rwa [Nat.div_one, mul_comm] at bound

/-- On the DilV schedule the first 210000 blocks issue all that the range of amounts allows. -/
lemma emitted_dilv_le_iff (isDilv : params.schedule = Network.dilv.schedule) (height : UInt32) :
    (params.emitted height : Int) ≤ maxMoney.toInt ↔ height.toNat < 210000 := by
  obtain ⟨reward, interval⟩ : params.initialReward = 10000000000 ∧ params.halvingInterval = 1050000 :=
    Prod.mk.inj isDilv
  have first : ∀ {count}, count ≤ 1050000 → ∑ h ∈ range count, (calculateBlockSubsidy params (.ofNat h)).toNat =
      count * 10000000000 := by
    intro count early
    have each : ∀ h ∈ range count, (calculateBlockSubsidy params (.ofNat h)).toNat = 10000000000 := by
      intro h inside
      have low : h < 1050000 := (mem_range.mp inside).trans_le early
      rw [subsidy_eq, UInt32.toNat_ofNat_of_lt' (low.trans (by decide)), reward, interval]
      simp [Nat.div_eq_of_lt low]
    rw [sum_congr rfl each, sum_const, card_range, nsmul_eq_mul, Nat.cast_id]
  have money : maxMoney.toInt = 2100000000000000 := by decide
  rw [money]
  constructor
  · intro within
    by_contra late
    have part : ∑ h ∈ range 210001, (calculateBlockSubsidy params (.ofNat h)).toNat ≤ params.emitted height :=
      sum_le_sum_of_subset (range_subset_range.mpr (by omega))
    rw [first (by decide)] at part
    omega
  · intro early
    rw [emitted, first (by omega)]
    omega

/-- The emission is sound on every schedule but that of DilV, and on that one up to height 209999. -/
theorem emissionSound_iff (params : ChainParams) (positive : params.halvingInterval ≠ 0) (height : UInt32) :
    params.EmissionSound height ↔ (params.schedule = Network.dilv.schedule → height.toNat < 210000) := by
  constructor
  · rintro ⟨-, -, within⟩ isDilv
    exact (emitted_dilv_le_iff isDilv height).mp (within .dilv isDilv)
  · intro early
    have bound := emitted_le positive height
    refine ⟨emitted_eq positive height, bound, fun network same => ?_⟩
    cases network with
    | dilv => exact (emitted_dilv_le_iff same height).mpr (early same)
    | mainnet | testnet | regtest =>
      obtain ⟨reward, interval⟩ : params.initialReward = 5000000000 ∧ params.halvingInterval = 210000 :=
        Prod.mk.inj same
      rw [reward, interval] at bound
      exact (Int.ofNat_le.mpr bound).trans (by decide)

theorem emissionSound_mainnet : ChainParams.EmissionSound {} 6930000 :=
  (emissionSound_iff {} (by decide) 6930000).mpr (by decide)

/-- One block more than 210000 of them issues more than one transaction may move. -/
theorem dilv_emission_exceeds : ¬ ChainParams.EmissionSound
    { network := .dilv, initialReward := 10000000000, halvingInterval := 1050000 } 210000 := by
  rintro ⟨-, -, within⟩
  exact absurd ((emitted_dilv_le_iff rfl 210000).mp (within .dilv rfl)) (by decide)

end ChainParams

end Dilithion
