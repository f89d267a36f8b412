import Dilithion.Lib.Stateful
import Dilithion.Script.Interpreter
import Dilithion.Node.UtxoSet

/-! The checks of `CheckTransaction`, which look outputs up in the set while they run. A lookup may fill the cache, so
each check is a program on the set that keeps whatever holds across lookups. -/

namespace Dilithion

open Lib Lib.Stateful Keeps LittleEndian

namespace Consensus

def minTxFee : CAmount := 0

def feePerByte : CAmount := 5

def minRelayTxFee : CAmount := 10000

def maxReasonableFee : CAmount := 10000000

def calculateMinFee (txSize : Nat) : CAmount := minTxFee + Int64.ofNat txSize * feePerByte

def checkFee (tx : CTransaction) (feePaid : CAmount) (checkRelay : Bool) : Check :=
  let minFee := calculateMinFee tx.getSerializedSize
  if feePaid < minFee then .error ("Fee too low: " ++ toString feePaid ++ " < " ++ toString minFee)
  else if checkRelay ∧ feePaid < minRelayTxFee then .error ("Below relay min: " ++ toString feePaid)
  else if maxReasonableFee < feePaid then .error ("Fee too high: " ++ toString feePaid)
  else .ok ()

def varIntSize (value : Nat) : Nat :=
  if value < 253 then 1 else if value ≤ 0xFFFF then 3 else if value ≤ 0xFFFFFFFF then 5 else 9

def estimateDilithiumTxSize (numInputs numOutputs extraDataSize : Nat) : Nat :=
  4 + varIntSize numInputs + numInputs * 5308 + varIntSize numOutputs + numOutputs * 34 + 4 + extraDataSize

/-- A transaction with legacy scriptSigs that pays to key hashes has the estimated size. So with any extra bytes
the fee for the estimate is left to the other two tests of `checkFee`. -/
theorem estimate_exact (tx : CTransaction) (legacy : ∀ txin ∈ tx.vin, txin.scriptSig.length = 5265)
    (toKeyHash : ∀ txout ∈ tx.vout, txout.scriptPubKey.length = 25) (extraDataSize : Nat) :
    estimateDilithiumTxSize tx.vin.length tx.vout.length extraDataSize = tx.getSerializedSize + extraDataSize ∧
      ∀ (actual : CTransaction) (feePaid : CAmount) (checkRelay : Bool), actual.getSerializedSize =
        tx.getSerializedSize + extraDataSize →
        feePaid = calculateMinFee (estimateDilithiumTxSize tx.vin.length tx.vout.length extraDataSize) →
        checkFee actual feePaid checkRelay =
          if checkRelay ∧ feePaid < minRelayTxFee then .error ("Below relay min: " ++ toString feePaid)
          else if maxReasonableFee < feePaid then .error ("Fee too high: " ++ toString feePaid)
          else .ok () := by
  have inputs : tx.vin.map CTxIn.serializedSize = tx.vin.map fun _ => 5308 :=
    List.map_congr_left fun txin inside => by rw [CTxIn.serializedSize, legacy txin inside]; rfl
  have outputs : tx.vout.map CTxOut.serializedSize = tx.vout.map fun _ => 34 :=
    List.map_congr_left fun txout inside => by rw [CTxOut.serializedSize, toKeyHash txout inside]; rfl
  have exact : estimateDilithiumTxSize tx.vin.length tx.vout.length extraDataSize =
      tx.getSerializedSize + extraDataSize := by
    simp [estimateDilithiumTxSize, CTransaction.getSerializedSize, inputs, outputs, varIntSize, compactSizeLength]
  refine ⟨exact, fun actual feePaid checkRelay size isFee => ?_⟩
  rw [checkFee, size, ← exact, ← isFee]
  exact if_neg Int64.lt_irrefl

def legacyPayment : CTransaction :=
  ⟨1, [⟨⟨⟨List.replicate 32 7, rfl⟩, 0⟩, List.replicate 5265 7, 0⟩], [⟨5, List.replicate 25 7⟩], 0⟩

theorem estimate_of_payment : estimateDilithiumTxSize 1 1 0 = legacyPayment.getSerializedSize := by
  refine (estimate_exact legacyPayment (fun txin inside => ?_) (fun txout inside => ?_) 0).1
  · cases List.mem_singleton.mp inside
    exact List.length_replicate
  · cases List.mem_singleton.mp inside
    exact List.length_replicate

end Consensus

structure CSignatureTask where
  signature : Bytes
  message : Bytes
  pubkey : Bytes
  inputIndex : Nat

/-- What the validator reads besides the transaction and the set: the clock, and the answer of the
batch verifier to a batch when its threads are running. -/
structure ValidationContext where
  now : Int64
  batchVerifier : Option (List CSignatureTask → Check) := none

def CSignatureTask.verifySingle (env : Env) (task : CSignatureTask) : Bool :=
  task.signature.length == dilithium3SigSize && task.pubkey.length == dilithium3PkSize &&
    task.message.length == 32 && env.dilithium3Verify task.signature task.message task.pubkey

abbrev Lookups (α : Type) := Stateful CUTXOSet α

def lookupUTXO (env : Env) (outpoint : COutPoint) : Lookups (Option CUTXOEntry) :=
  query (fun set => set.getUTXO env outpoint)

namespace CTransactionValidator

def maxTransactionSize : Nat := 1000000

def maxInputCountPerTx : Nat := 10000

def maxOutputCount : Nat := 10000

def consensusDustThreshold : UInt64 := 50000

/-- Outputs that start with `OP_RETURN` are skipped. -/
def checkOutputValues : CAmount → List CTxOut → Check
  | _, [] => .ok ()
  | totalOut, txout :: rest =>
    if txout.scriptPubKey.head? = some 0x6a then checkOutputValues totalOut rest
    else if txout.nValue = 0 then .error "Transaction output value must be positive"
    else if txout.nValue < consensusDustThreshold then
      .error ("Output value below dust threshold (" ++ toString txout.nValue ++ " < " ++
        toString consensusDustThreshold ++ " ions)")
    else if ¬ moneyRange txout.nValue.toInt64 then .error "Transaction output value out of range"
    else if ¬ moneyRange (totalOut + txout.nValue.toInt64) then .error "Transaction output total out of range"
    else checkOutputValues (totalOut + txout.nValue.toInt64) rest

variable (env : Env) (context : ValidationContext) (tx : CTransaction) (currentHeight : UInt32)

def checkDuplicateInputs : Bool := decide (tx.vin.map CTxIn.prevout).Nodup

def checkInputForm : Check :=
  if tx.isCoinBase then
    match tx.vin with
    | [txin] =>
      if ¬ txin.prevout.isNull then .error "Coinbase transaction input must have null prevout"
      else if txin.scriptSig.length < 2 ∨ 20000 < txin.scriptSig.length then
        .error "Coinbase scriptSig size must be between 2 and 20000 bytes"
      else .ok ()
    | _ => .error "Coinbase transaction must have exactly one input"
  else if tx.vin.isEmpty then .error "Transaction has no inputs"
  else if tx.vin.any (fun txin => txin.prevout.isNull) then
    .error "Transaction input has null prevout (only coinbase allowed)"
  else .ok ()

def checkTransactionBasic : Check := do
  if tx.isNull then throw "Transaction is null"
  if tx.nVersion = 0 then throw "Transaction version cannot be zero"
  if 255 < tx.nVersion then throw "Transaction version exceeds maximum (255)"
  checkInputForm tx
  if tx.vout.isEmpty then throw "Transaction has no outputs"
  if maxOutputCount < tx.vout.length then
    throw ("Transaction has too many outputs (" ++ toString tx.vout.length ++ " > max " ++
      toString maxOutputCount ++ ")")
  checkOutputValues 0 tx.vout
  if maxTransactionSize < tx.getSerializedSize then
    throw ("Transaction size (" ++ toString tx.getSerializedSize ++ " bytes) exceeds maximum (" ++
      toString maxTransactionSize ++ " bytes)")
  if ¬ checkDuplicateInputs tx then throw "Transaction contains duplicate inputs"

/-- A lock time counts when some input is not final: below the threshold it is a height, else a time. -/
def checkLockTime : Check :=
  if tx.vin.any (fun txin => txin.nSequence != 0xFFFFFFFF) ∧ tx.nLockTime ≠ 0 then
    if tx.nLockTime < 500000000 then
      if currentHeight < tx.nLockTime then
        .error ("Transaction locktime not satisfied (block height " ++ toString tx.nLockTime ++ " > current " ++
          toString currentHeight ++ ")")
      else .ok ()
    else if context.now < Int64.ofNat tx.nLockTime.toNat then
      .error ("Transaction locktime not satisfied (timestamp " ++ toString tx.nLockTime ++ " > current " ++
        toString context.now ++ ")")
    else .ok ()
  else .ok ()

def checkInputsExist (env : Env) : List CTxIn → Lookups Unit
  | [] => return ()
  | txin :: rest => do
    let found ← lookupUTXO env txin.prevout
    refuse (found = none) ("Input references non-existent UTXO (tx: " ++ txin.prevout.hash.getHex ++ ", n: " ++
      toString txin.prevout.n ++ ")")
    checkInputsExist env rest

/-- The relative lock of one input, given the entry it spends. Locks in units of time are not enforced. -/
def checkRelativeLock (index : Nat) (txin : CTxIn) (entry : CUTXOEntry) : Check :=
  let requiredValue := txin.nSequence &&& 0xffff
  let heightDiff := currentHeight - entry.nHeight
  if txin.nSequence &&& 0x00400000 ≠ 0 then .ok ()
  else if heightDiff < requiredValue then
    .error ("BIP-68 relative locktime not satisfied for input " ++ toString index ++ " (need " ++
      toString requiredValue ++ " blocks, have " ++ toString heightDiff ++ ")")
  else .ok ()

def checkInputLock (index : Nat) (txin : CTxIn) : Lookups Unit := do
  match ← lookupUTXO env txin.prevout with
  | none => return ()
  | some entry => check (checkRelativeLock currentHeight index txin entry)

-- Bit 31 switches the relative lock of an input off.
def checkRelativeLocks (env : Env) (currentHeight : UInt32) : Nat → List CTxIn → Lookups Unit
  | _, [] => return ()
  | index, txin :: rest => do
    onlyIf (txin.nSequence &&& 0x80000000 = 0) (checkInputLock env currentHeight index txin)
    checkRelativeLocks env currentHeight (index + 1) rest

def checkMaturity (entry : CUTXOEntry) : Check :=
  let confirmations := currentHeight - entry.nHeight
  if entry.fCoinBase ∧ confirmations < env.params.coinbaseMaturity then
    .error ("Coinbase output not mature (height: " ++ toString entry.nHeight ++ ", current: " ++
      toString currentHeight ++ ", confirmations: " ++ toString confirmations ++ ", required: " ++
      toString env.params.coinbaseMaturity ++ ")")
  else .ok ()

def checkInputMaturity (txin : CTxIn) : Lookups Unit := do
  match ← lookupUTXO env txin.prevout with
  | none => throw "Failed to retrieve UTXO for maturity check"
  | some entry => check (checkMaturity env currentHeight entry)

def checkCoinbaseMaturity (env : Env) (currentHeight : UInt32) : List CTxIn → Lookups Unit
  | [] => return ()
  | txin :: rest => do
    checkInputMaturity env currentHeight txin
    checkCoinbaseMaturity env currentHeight rest

def addInputValue (totalIn : CAmount) (entry : CUTXOEntry) : Except String CAmount :=
  if ¬ moneyRange entry.out.nValue.toInt64 then .error "UTXO value out of range"
  else if ¬ moneyRange (totalIn + entry.out.nValue.toInt64) then .error "Total input value overflow"
  else .ok (totalIn + entry.out.nValue.toInt64)

def calculateTotalInputValue (env : Env) : CAmount → List CTxIn → Lookups CAmount
  | totalIn, [] => return totalIn
  | totalIn, txin :: rest => do
    match ← lookupUTXO env txin.prevout with
    | none => throw "Failed to retrieve UTXO entry"
    | some entry =>
      let newTotal ← check (addInputValue totalIn entry)
      calculateTotalInputValue env newTotal rest

-- Every output counts here, and the sum wraps.
def totalOutputValue (vout : List CTxOut) : CAmount :=
  vout.foldl (fun totalOut txout => totalOut + txout.nValue.toInt64) 0

def checkTotals (totalIn totalOut : CAmount) : Except String CAmount :=
  if totalIn < totalOut then .error "Transaction inputs less than outputs (negative fee)"
  else
    let txFee := totalIn - totalOut
    if ¬ moneyRange txFee then .error "Transaction fee out of range"
    else if txFee < 0 then .error "Transaction fee is negative"
    else match Consensus.checkFee tx txFee true with
      | .error feeError => .error ("Fee requirement check failed: " ++ feeError)
      | .ok () => .ok txFee

def checkTransactionInputs : Lookups CAmount :=
  if tx.isCoinBase then return 0
  else do
    check (checkLockTime context tx currentHeight)
    checkInputsExist env tx.vin
    onlyIf (2 ≤ tx.nVersion) (checkRelativeLocks env currentHeight 0 tx.vin)
    checkCoinbaseMaturity env currentHeight tx.vin
    let totalIn ← calculateTotalInputValue env 0 tx.vin
    check (checkTotals tx totalIn (totalOutputValue tx.vout))

def pushFormat (scriptSig : Bytes) : Bytes :=
  if isLegacyScriptSig scriptSig then
    0x4d :: encode 2 dilithium3SigSize ++ (scriptSig.drop 2).take dilithium3SigSize ++
      0x4d :: encode 2 dilithium3PkSize ++ scriptSig.drop (2 + dilithium3SigSize + 2)
  else scriptSig

def verifyScript (inputIdx : Nat) (scriptSig scriptPubKey : Bytes) : Check :=
  if maxScriptSize < scriptPubKey.length then .error "scriptPubKey exceeds maximum size (DoS protection)"
  else if maxScriptSize < scriptSig.length then .error "scriptSig exceeds maximum size (DoS protection)"
  else Dilithion.verifyScript env.hashes ⟨true, true⟩
    (transactionSignatureChecker env.hashes env.dilithium3Verify tx inputIdx env.params.chainID)
    (pushFormat scriptSig) scriptPubKey

def prepareSignatureData (inputIdx : Nat) (scriptSig scriptPubKey : Bytes) : Except String CSignatureTask :=
  let signature := (scriptSig.drop 2).take dilithium3SigSize
  let pubkey := (scriptSig.drop (2 + dilithium3SigSize + 2)).take dilithium3PkSize
  if scriptPubKey.length ≠ 25 then .error "scriptPubKey must be 25 bytes (P2PKH)"
  else if ¬ isPayToPublicKeyHash scriptPubKey then .error "Invalid P2PKH script format"
  else if scriptSig.length ≠ 2 + dilithium3SigSize + 2 + dilithium3PkSize then .error "Invalid scriptSig size"
  else if value (scriptSig.take 2) ≠ dilithium3SigSize then .error "Invalid signature size"
  else if value ((scriptSig.drop (2 + dilithium3SigSize)).take 2) ≠ dilithium3PkSize then
    .error "Invalid public key size"
  else if hash160 env.hashes pubkey ≠ (scriptPubKey.drop 3).take 20 then
    .error "Public key hash does not match scriptPubKey"
  else .ok ⟨signature, (env.hashes.sha3_256 (signatureMessage env.hashes tx inputIdx env.params.chainID)).data,
    pubkey, inputIdx⟩

def collectSignatureTasks (env : Env) (tx : CTransaction) : Nat → List CTxIn → Lookups (List CSignatureTask)
  | _, [] => return []
  | index, txin :: rest => do
    match ← lookupUTXO env txin.prevout with
    | none => throw "Failed to retrieve UTXO for batch verification"
    | some entry =>
      let task ← check ((prepareSignatureData env tx index txin.scriptSig entry.out.scriptPubKey).mapError
        (fun error => "Failed to prepare signature data for input " ++ toString index ++ ": " ++ error))
      let others ← collectSignatureTasks env tx (index + 1) rest
      return task :: others

/-- Whether every input found spends a key hash with a legacy signature script; the first that does
not ends the scan. -/
def allP2PKH (env : Env) : List CTxIn → Lookups Bool
  | [] => return true
  | txin :: rest => do
    match ← lookupUTXO env txin.prevout with
    | none => allP2PKH env rest
    | some entry =>
      if ¬ isPayToPublicKeyHash entry.out.scriptPubKey ∨ ¬ isLegacyScriptSig txin.scriptSig then return false
      else allP2PKH env rest

def verifyInputScript (index : Nat) (txin : CTxIn) : Lookups Unit := do
  match ← lookupUTXO env txin.prevout with
  | none => throw "Failed to retrieve UTXO for script verification"
  | some entry =>
    check ((verifyScript env tx index txin.scriptSig entry.out.scriptPubKey).mapError
      (fun error => "Script verification failed for input " ++ toString index ++ ": " ++ error))

def verifyInputScripts (env : Env) (tx : CTransaction) : Nat → List CTxIn → Lookups Unit
  | _, [] => return ()
  | index, txin :: rest => do
    verifyInputScript env tx index txin
    verifyInputScripts env tx (index + 1) rest

/-- Before the activation height outputs pay to key hashes or are unspendable. -/
def checkOutputScripts : Check :=
  if currentHeight.toInt32.toInt < env.params.scriptV2ActivationHeight ∧
      tx.vout.any (fun txout => !isPayToPublicKeyHash txout.scriptPubKey && !isUnspendable txout.scriptPubKey) then
    .error ("Non-P2PKH scripts not activated until height " ++ toString env.params.scriptV2ActivationHeight)
  else .ok ()

def checkScripts : Lookups Unit := do
  refuse (maxInputCountPerTx < tx.vin.length) "Transaction has too many inputs (DoS protection limit exceeded)"
  check (checkOutputScripts env tx currentHeight)
  let legacy ← allP2PKH env tx.vin
  match context.batchVerifier with
  | none => verifyInputScripts env tx 0 tx.vin
  | some wait =>
    -- A single input is not worth a batch.
    if legacy ∧ 2 ≤ tx.vin.length then do
      let tasks ← collectSignatureTasks env tx 0 tx.vin
      check (wait tasks)
    else verifyInputScripts env tx 0 tx.vin

def checkTransaction : Lookups CAmount := do
  check (checkTransactionBasic tx)
  let txFee ← checkTransactionInputs env context tx currentHeight
  onlyIf (¬ tx.isCoinBase) (checkScripts env context tx currentHeight)
  return txFee

section

variable {env : Env} {inv : CUTXOSet → Prop} (looks : ∀ set outpoint, inv set → inv (set.getUTXO env outpoint).2)

include looks

lemma lookup_looks {α : Type} {next : Option CUTXOEntry → Lookups α} (absent : Keeps inv (next none) (fun _ => True))
    (present : ∀ entry, Keeps inv (next (some entry)) (fun _ => True)) (outpoint : COutPoint) :
    Keeps inv (lookupUTXO env outpoint >>= next) (fun _ => True) := by
  have looked : Keeps inv (lookupUTXO env outpoint) (fun _ => True) := query fun set good =>
    ⟨looks set outpoint good, trivial⟩
  refine bind looked fun found _ => ?_
  cases found with
  | none => exact absent
  | some entry => exact present entry

variable (context : ValidationContext) (tx : CTransaction) (currentHeight : UInt32) (vin : List CTxIn)

lemma checkInputsExist_looks : Keeps inv (checkInputsExist env vin) (fun _ => True) := by
  induction vin with
  | nil => exact pure trivial
  | cons txin rest ih =>
    exact lookup_looks looks (bind (refuse _ _) fun _ _ => ih) (fun _ => bind (refuse _ _) fun _ _ => ih) txin.prevout

lemma checkRelativeLocks_looks (index : Nat) (vin : List CTxIn) :
    Keeps inv (checkRelativeLocks env currentHeight index vin) (fun _ => True) := by
  induction vin generalizing index with
  | nil => exact pure trivial
  | cons txin rest ih =>
    have lock : Keeps inv (checkInputLock env currentHeight index txin) (fun _ => True) := by
      refine lookup_looks looks ?_ (fun _ => (Keeps.check _).weaken fun _ _ => trivial) txin.prevout
      exact pure trivial
    exact bind (onlyIf fun _ => lock) fun _ _ => ih (index + 1)

lemma checkCoinbaseMaturity_looks : Keeps inv (checkCoinbaseMaturity env currentHeight vin) (fun _ => True) := by
  induction vin with
  | nil => exact pure trivial
  | cons txin rest ih =>
    have mature : Keeps inv (checkInputMaturity env currentHeight txin) (fun _ => True) :=
      lookup_looks looks (throw _ _) (fun _ => (Keeps.check _).weaken fun _ _ => trivial) txin.prevout
    exact bind mature fun _ _ => ih

lemma calculateTotalInputValue_looks (totalIn : CAmount) (vin : List CTxIn) :
    Keeps inv (calculateTotalInputValue env totalIn vin) (fun _ => True) := by
  induction vin generalizing totalIn with
  | nil => exact pure trivial
  | cons txin rest ih =>
    exact lookup_looks looks (throw _ _) (fun _ => bind (check _) fun newTotal _ => ih newTotal) txin.prevout

lemma checkTransactionInputs_looks :
    Keeps inv (checkTransactionInputs env context tx currentHeight) (fun _ => True) := by
  unfold checkTransactionInputs
  split
  · exact pure trivial
  · refine bind (check _) fun _ _ => ?_
    refine bind (checkInputsExist_looks looks tx.vin) fun _ _ => ?_
    refine bind (onlyIf fun _ => checkRelativeLocks_looks looks currentHeight 0 tx.vin) fun _ _ => ?_
    refine bind (checkCoinbaseMaturity_looks looks currentHeight tx.vin) fun _ _ => ?_
    refine bind (calculateTotalInputValue_looks looks 0 tx.vin) fun _ _ => ?_
    exact (Keeps.check _).weaken fun _ _ => trivial

lemma allP2PKH_looks : Keeps inv (allP2PKH env vin) (fun _ => True) := by
  induction vin with
  | nil => exact pure trivial
  | cons txin rest ih =>
    refine lookup_looks looks ih (fun entry => ?_) txin.prevout
    dsimp only
    split
    · exact pure trivial
    · exact ih

lemma collectSignatureTasks_looks (index : Nat) (vin : List CTxIn) :
    Keeps inv (collectSignatureTasks env tx index vin) (fun _ => True) := by
  induction vin generalizing index with
  | nil => exact pure trivial
  | cons txin rest ih =>
    refine lookup_looks looks (throw _ _) (fun entry => bind (check _) fun task _ => ?_) txin.prevout
    exact bind (ih (index + 1)) fun others _ => pure trivial

lemma verifyInputScripts_looks (index : Nat) (vin : List CTxIn) :
    Keeps inv (verifyInputScripts env tx index vin) (fun _ => True) := by
  induction vin generalizing index with
  | nil => exact pure trivial
  | cons txin rest ih =>
    have here : Keeps inv (verifyInputScript env tx index txin) (fun _ => True) :=
      lookup_looks looks (throw _ _) (fun _ => (Keeps.check _).weaken fun _ _ => trivial) txin.prevout
    exact bind here fun _ _ => ih (index + 1)

lemma checkScripts_looks : Keeps inv (checkScripts env context tx currentHeight) (fun _ => True) := by
  refine bind (refuse _ _) fun _ _ => bind (check _) fun _ _ => ?_
  refine bind (allP2PKH_looks looks tx.vin) fun legacy _ => ?_
  cases context.batchVerifier with
  | none => exact verifyInputScripts_looks looks tx 0 tx.vin
  | some wait =>
    dsimp only
    split
    · exact Keeps.bind (collectSignatureTasks_looks looks tx 0 tx.vin) fun tasks _ =>
        (Keeps.check _).weaken fun _ _ => trivial
    · exact verifyInputScripts_looks looks tx 0 tx.vin

end

end CTransactionValidator

end Dilithion
