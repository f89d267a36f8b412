import Dilithion.Consensus.PayToKeyHash

/-! Hash time locked contracts. The script is run over whatever stack a scriptSig leaves, so an accepted
spend has either shown a preimage of the hash lock with a signature under the claim key, or waited for the
timeout and signed under the refund key. -/

namespace Dilithion

open Lib CTransactionValidator CScriptNum Ensures List

structure HTLCParameters where
  hashLock : Bytes
  claimPubkeyHash : Bytes
  refundPubkeyHash : Bytes
  timeoutHeight : UInt32

def pushData (data : Bytes) : Bytes :=
  if data.length < 0x4c then UInt8.ofNat data.length :: data
  else if data.length ≤ 0xff then 0x4c :: UInt8.ofNat data.length :: data
  else if data.length ≤ 0xffff then 0x4d :: LittleEndian.encode 2 data.length ++ data
  else 0x4e :: LittleEndian.encode 4 data.length ++ data

def pushInt (n : Int64) : Bytes :=
  if n = -1 ∨ 1 ≤ n ∧ n ≤ 16 then [(n + 0x50).toUInt64.toUInt8]
  else if n = 0 then [0x00]
  else pushData (serialize n)

def createHTLCScript (params : HTLCParameters) : Except String Bytes :=
  if params.hashLock.length ≠ 32 then .error "HTLC hash_lock must be 32 bytes"
  else if params.claimPubkeyHash.length ≠ 20 then .error "HTLC claim_pubkey_hash must be 20 bytes"
  else if params.refundPubkeyHash.length ≠ 20 then .error "HTLC refund_pubkey_hash must be 20 bytes"
  else .ok (
    -- OP_IF: the recipient reveals the preimage.
    [0x63, 0xa8] ++ pushData params.hashLock ++ [0x88, 0x76, 0xa9] ++ pushData params.claimPubkeyHash ++ [0x88, 0xac] ++
    -- OP_ELSE: the sender reclaims after the timeout.
    [0x67] ++ pushData (serialize (Int64.ofNat params.timeoutHeight.toNat)) ++ [0xb1, 0x75, 0x76, 0xa9] ++
      pushData params.refundPubkeyHash ++ [0x88, 0xac, 0x68])

variable {params : HTLCParameters}

lemma createHTLCScript_split {script : Bytes} (created : createHTLCScript params = .ok script) :
    params.hashLock.length = 32 ∧ params.claimPubkeyHash.length = 20 ∧ params.refundPubkeyHash.length = 20 ∧
      script = 0x63 :: 0xa8 :: (pushData params.hashLock ++ 0x88 :: (0x76 :: 0xa9 :: 0x14 :: params.claimPubkeyHash ++
        0x88 :: 0xac :: 0x67 :: (pushData (serialize (Int64.ofNat params.timeoutHeight.toNat)) ++
        0xb1 :: 0x75 :: (0x76 :: 0xa9 :: 0x14 :: params.refundPubkeyHash ++ 0x88 :: 0xac :: [0x68])))) := by
  unfold createHTLCScript at created
  split at created
  · cases created
  · split at created
    · cases created
    · split at created
      · cases created
      · rename_i lock claim refund
        simp only [ne_eq, not_not] at lock claim refund
        refine ⟨lock, claim, refund, ?_⟩
        cases created
        have push (keyHash : Bytes) (sized : keyHash.length = 20) : pushData keyHash = 0x14 :: keyHash := by
          rw [pushData, sized]
          rfl
        simp [push _ claim, push _ refund]

section

variable {H : HashFunctions} {flags : ScriptVerifyFlags} {checker : SignatureChecker}
  {rest : Bytes} {stack : List Bytes}
  {vfExec : List Bool} {post : List Bytes → List Bool → Prop}

/-- A short push; the empty string is pushed by `OP_0`. -/
lemma Ensures.pushData {data : Bytes} (small : data.length < 0x4c)
    (next : Ensures H flags checker rest (if vfExec.head?.getD true then data :: stack else stack) vfExec post) :
    Ensures H flags checker (Dilithion.pushData data ++ rest) stack vfExec post := by
  rw [Dilithion.pushData, if_pos small]
  by_cases empty : data = []
  · subst empty
    by_cases taken : vfExec.head?.getD true = true
    · rw [if_pos taken] at next
      refine Ensures.taken rfl rfl taken fun count after done => ?_
      cases done
      exact next
    · rw [if_neg taken] at next
      exact skip rfl rfl (by simpa using taken) next
  · exact Ensures.push (length_pos_iff.mpr empty) small next

lemma evalScript_pushData {data : Bytes} (small : data.length < 0x4c) :
    evalScript H flags checker [] (pushData data) = .ok [data] := by
  rw [pushData, if_pos small]
  by_cases empty : data = []
  · subst empty
    rfl
  · have runs : Runs H flags checker (UInt8.ofNat data.length :: (data ++ [])) ⟨[], [], 0⟩ ⟨[data], [], 0⟩ :=
      .step (scriptStep_push (length_pos_iff.mpr empty) small _) (.nil _)
    rw [append_nil] at runs
    exact runs.evalScript (by simp [maxScriptSize]; omega)

lemma evalScript_pushInt {v : Int64} (small : (serialize v).length < 0x4c) :
    evalScript H flags checker [] (pushInt v) = .ok [serialize v] := by
  unfold pushInt
  split
  case isTrue short =>
    rcases short with rfl | ⟨low, high⟩
    · rfl
    · have low : 1 ≤ v.toInt := Int64.le_iff_toInt_le.mp low
      have high : v.toInt ≤ 16 := Int64.le_iff_toInt_le.mp high
      rw [← Int64.ofInt_toInt v]
      generalize v.toInt = n at low high
      interval_cases n <;> rfl
  case isFalse =>
    split
    case isTrue isZero =>
      subst isZero
      rfl
    case isFalse => exact evalScript_pushData small

/-- Decoding takes the encoding back, no other bytes as short denote the number, and a push of the number or of its
encoding leaves the encoding. -/
theorem scriptNum_codec {v : Int64} (notMin : v ≠ Int64.minValue) (H : HashFunctions) (flags : ScriptVerifyFlags)
    (checker : SignatureChecker) : setVch (serialize v) = v ∧
      (∀ vch, setVch vch = v → vch = serialize v ∨ (serialize v).length < vch.length) ∧
      evalScript H flags checker [] (pushInt v) = .ok [serialize v] ∧
      evalScript H flags checker [] (pushData (serialize v)) = .ok [serialize v] := by
  have room : v.toInt.natAbs < signBit 8 := by
    have low := v.le_toInt
    have high := v.toInt_lt
    have lowest : v.toInt ≠ -2 ^ 63 := fun same => notMin (Int64.toInt_inj.mp same)
    unfold signBit
    omega
  obtain ⟨decodes, shortest⟩ := serialize_spec room
  have small : (serialize v).length < 0x4c := Nat.lt_of_le_of_lt (serialize_length_le room) (by decide)
  exact ⟨decodes, shortest, evalScript_pushInt small, evalScript_pushData small⟩

theorem scriptNum_codec_largest : (-Int64.maxValue ≠ Int64.minValue) ∧
    setVch (serialize (-Int64.maxValue)) = -Int64.maxValue := by
  have notMin : -Int64.maxValue ≠ Int64.minValue := by decide
  exact ⟨notMin, (scriptNum_codec notMin (.ofTable []) ⟨true, true⟩ ⟨fun _ _ => true, fun _ => true, fun _ => true⟩).1⟩

/-- What either branch of the contract has taken from the stack, and the answer it leaves. -/
lemma ensures_htlc {params : HTLCParameters} {script : Bytes} (created : createHTLCScript params = .ok script)
    (flagged : flags.checkLockTimeVerify = true) :
    Ensures H flags checker script stack [] fun final _ =>
      (∃ selector preimage pubkey sig below, stack = selector :: preimage :: pubkey :: sig :: below ∧
        (H.sha3_256 preimage).data = params.hashLock ∧ hash160 H pubkey = params.claimPubkeyHash ∧
        final = ofBool (checker.checkSig sig pubkey) :: below) ∨
      (∃ selector pubkey sig below, stack = selector :: pubkey :: sig :: below ∧
        checker.checkLockTime (Int64.ofNat params.timeoutHeight.toNat) = true ∧
        hash160 H pubkey = params.refundPubkeyHash ∧ final = ofBool (checker.checkSig sig pubkey) :: below) := by
  obtain ⟨lockSize, claimSize, refundSize, rfl⟩ := createHTLCScript_split created
  obtain ⟨timeoutSize, timeout⟩ := ofVch_serialize params.timeoutHeight
  refine Ensures.opIf rfl fun selector below isStack => ?_
  cases castToBool selector with
  | true =>
    refine Ensures.sha3_256 rfl fun preimage deeper isBelow => Ensures.pushData (by omega) ?_
    refine Ensures.equalVerify rfl fun locked =>
      Ensures.payToKeyHash rfl claimSize fun pubkey sig bottom isDeeper hashes => ?_
    -- The other branch is read through without effect.
    refine opElse (Ensures.pushData (by omega) ?_)
    refine skip rfl rfl rfl (skip rfl rfl rfl (skipPayToKeyHash refundSize rfl ?_))
    refine opEndIf (nil (.inl ⟨selector, preimage, pubkey, sig, bottom, ?_, locked.symm, hashes, rfl⟩))
    rw [isStack, isBelow, isDeeper]
  | false =>
    refine skip rfl rfl rfl (Ensures.pushData (by omega) (skip rfl rfl rfl ?_))
    refine skipPayToKeyHash claimSize rfl (opElse (Ensures.pushData (by omega) ?_))
    refine Ensures.checkLockTimeVerify rfl flagged fun number isNumber holds =>
      Ensures.drop rfl fun top kept isPushed => ?_
    obtain ⟨rfl, rfl⟩ := cons.inj isPushed
    rw [timeout] at isNumber
    cases isNumber
    refine Ensures.payToKeyHash rfl refundSize fun pubkey sig bottom isKept hashes => ?_
    refine opEndIf (nil (.inr ⟨selector, pubkey, sig, bottom, ?_, holds, hashes, rfl⟩))
    exact isStack.trans (congrArg (selector :: ·) isKept)

end

namespace HTLCParameters

variable (params : HTLCParameters) (H : HashFunctions)
  (dilithium3Verify : Bytes → Bytes → Bytes → Bool) (tx : CTransaction)
  (inputIdx : Nat) (chainId : UInt32) (stack : List Bytes)

def Claimed : Prop :=
  ∃ selector preimage pubkey sig below, stack = selector :: preimage :: pubkey :: sig :: below ∧
    (H.sha3_256 preimage).data = params.hashLock ∧ hash160 H pubkey = params.claimPubkeyHash ∧
    SignedBy H dilithium3Verify tx inputIdx chainId sig pubkey

/-- The transaction is locked until the timeout, heights and times apart, and its lock counts. -/
structure Waited : Prop where
  reached : params.timeoutHeight ≤ tx.nLockTime
  sameDomain : tx.nLockTime < 500000000 ↔ params.timeoutHeight < 500000000
  nonFinal : ∃ txin, tx.vin[inputIdx]? = some txin ∧ txin.nSequence ≠ 0xFFFFFFFF

def Refunded : Prop :=
  (∃ selector pubkey sig below, stack = selector :: pubkey :: sig :: below ∧
    hash160 H pubkey = params.refundPubkeyHash ∧ SignedBy H dilithium3Verify tx inputIdx chainId sig pubkey) ∧
  params.Waited tx inputIdx

end HTLCParameters

variable {tx : CTransaction}

lemma waited_of_checkLockTime {inputIdx : Nat}
    (holds : TransactionSignatureChecker.checkLockTime tx inputIdx (Int64.ofNat params.timeoutHeight.toNat) = true) :
    params.Waited tx inputIdx := by
  have timeout : (Int64.ofNat params.timeoutHeight.toNat).toInt = params.timeoutHeight.toNat :=
    Int64.toInt_ofNat_of_lt (by have := params.timeoutHeight.toNat_lt; omega)
  have lockTime : (Int64.ofNat tx.nLockTime.toNat).toInt = tx.nLockTime.toNat :=
    Int64.toInt_ofNat_of_lt (by have := tx.nLockTime.toNat_lt; omega)
  unfold TransactionSignatureChecker.checkLockTime at holds
  split at holds
  · cases holds
  · split at holds
    · cases holds
    · rename_i domains reached
      simp only [ne_eq, not_not, decide_eq_decide, Int64.lt_iff_toInt_lt, timeout, lockTime] at domains reached
      refine ⟨UInt32.le_iff_toNat_le.mpr (by omega), domains.trans ?_, ?_⟩
      · exact Int.ofNat_lt
      · split at holds
        · cases holds
        · rename_i txin found
          exact ⟨txin, found, by simpa using holds⟩

variable {context : ValidationContext} {currentHeight : UInt32}

lemma HTLCParameters.Waited.height {inputIdx : Nat}
    (waited : params.Waited tx inputIdx) (isHeight : params.timeoutHeight < 500000000)
    (locked : checkLockTime context tx currentHeight = .ok ()) :
    params.timeoutHeight ≤ currentHeight := by
  obtain ⟨txin, found, nonFinal⟩ := waited.nonFinal
  have counts : (tx.vin.any fun txin => txin.nSequence != 0xFFFFFFFF) = true :=
    any_eq_true.mpr ⟨txin, mem_of_getElem? found, by simpa using nonFinal⟩
  have reached := waited.reached
  have domain := waited.sameDomain.mpr isHeight
  unfold checkLockTime at locked
  by_cases zero : tx.nLockTime = 0
  · rw [zero] at reached
    exact UInt32.le_trans reached (UInt32.le_iff_toNat_le.mpr (Nat.zero_le _))
  · rw [if_pos ⟨counts, zero⟩, if_pos domain] at locked
    split at locked
    · cases locked
    · rename_i below
      exact UInt32.le_trans reached (UInt32.not_lt.mp below)

lemma checkTransactionInputs_locked {env : Env} {set : CUTXOSet} {fee : CAmount} (spends : tx.isCoinBase = false)
    (accepted : (checkTransactionInputs env context tx currentHeight set).1 = .ok fee) :
    checkLockTime context tx currentHeight = .ok () := by
  have ruled : Stateful.Keeps (fun _ : CUTXOSet => True) (checkTransactionInputs env context tx currentHeight)
      (fun _ => checkLockTime context tx currentHeight = .ok ()) := by
    unfold checkTransactionInputs
    rw [if_neg (by simp [spends])]
    exact Stateful.Keeps.bind (Stateful.Keeps.check _) fun _ locked set _ => ⟨trivial, fun _ _ => locked⟩
  exact (ruled set trivial).2 fee accepted

/-- Whatever scriptSig is accepted has left a stack that claims the contract or refunds it; and a refund
whose inputs are accepted too has reached the height of the timeout. -/
theorem htlc_safe (H : HashFunctions) (dilithium3Verify : Bytes → Bytes → Bytes → Bool) (flags : ScriptVerifyFlags)
    (params : HTLCParameters) (script : Bytes) (tx : CTransaction) (inputIdx chainId : UInt32) (scriptSig : Bytes)
    (flagged : flags.checkLockTimeVerify = true) (created : createHTLCScript params = .ok script)
    (accepted : verifyScript H flags
      (transactionSignatureChecker H dilithium3Verify tx inputIdx.toNat chainId) scriptSig
      script = .ok ()) :
    ∃ stack, evalScript H flags (transactionSignatureChecker H dilithium3Verify tx inputIdx.toNat chainId)
      [] scriptSig =
        .ok stack ∧
      (params.Claimed H dilithium3Verify tx inputIdx.toNat chainId stack ∨
        params.Refunded H dilithium3Verify tx inputIdx.toNat chainId stack ∧
          (params.timeoutHeight < 500000000 → tx.isCoinBase = false →
            ∀ (env : Env) (context : ValidationContext) (set : CUTXOSet) (currentHeight : UInt32) (fee : CAmount),
              (CTransactionValidator.checkTransactionInputs env context tx currentHeight set).1 = .ok fee →
                params.timeoutHeight ≤ currentHeight)) := by
  obtain ⟨stack, top, below, unlocked, locked, isTrue⟩ := verifyScript_accepted accepted
  refine ⟨stack, unlocked, ?_⟩
  rcases (ensures_htlc created flagged).evalScript locked with
    ⟨selector, preimage, pubkey, sig, deeper, isStack, preimages, hashes, final⟩ |
    ⟨selector, pubkey, sig, deeper, isStack, holds, hashes, final⟩
  · obtain ⟨rfl, rfl⟩ := cons.inj final
    rw [castToBool_ofBool] at isTrue
    exact .inl ⟨selector, preimage, pubkey, sig, _, isStack, preimages, hashes, checkSig_asks isTrue⟩
  · obtain ⟨rfl, rfl⟩ := cons.inj final
    rw [castToBool_ofBool] at isTrue
    have waited := waited_of_checkLockTime holds
    refine .inr ⟨⟨⟨selector, pubkey, sig, _, isStack, hashes, checkSig_asks isTrue⟩, waited⟩, ?_⟩
    intro isHeight spends env context set currentHeight fee inputs
    exact waited.height isHeight (checkTransactionInputs_locked spends inputs)

def smallContract : HTLCParameters where
  hashLock := (Uint256.ofNat 7).data
  claimPubkeyHash := (Uint256.ofNat 32).data.take 20
  refundPubkeyHash := (Uint256.ofNat 32).data.take 20
  timeoutHeight := 300

def refundPayment : CTransaction :=
  ⟨2, [⟨⟨Uint256.ofNat 1, 0⟩, [], 0⟩], [⟨50000, [0x6a]⟩], 300⟩

def refundScriptSig : Bytes :=
  pushData (List.replicate dilithium3SigSize 1) ++ pushData (List.replicate dilithium3PkSize 2) ++ [0x00]

theorem htlc_safe_refund : ∃ script stack, createHTLCScript smallContract = .ok script ∧
    verifyScript lengthHash ⟨true, true⟩ (transactionSignatureChecker lengthHash (fun _ _ _ => true) refundPayment 0 1)
      refundScriptSig script = .ok () ∧
    (smallContract.Claimed lengthHash (fun _ _ _ => true) refundPayment 0 1 stack ∨
      smallContract.Refunded lengthHash (fun _ _ _ => true) refundPayment 0 1 stack) := by
  have created : ∃ script, createHTLCScript smallContract = .ok script ∧
      verifyScript lengthHash ⟨true, true⟩
        (transactionSignatureChecker lengthHash (fun _ _ _ => true) refundPayment 0 1)
        refundScriptSig script = .ok () :=
    ⟨_, rfl, by decide +kernel⟩
  obtain ⟨script, created, accepted⟩ := created
  obtain ⟨stack, -, spent⟩ := htlc_safe lengthHash (fun _ _ _ => true)
    ⟨true, true⟩ smallContract script refundPayment 0 1
    refundScriptSig rfl created accepted
  exact ⟨script, stack, created, accepted, spent.imp_right And.left⟩

open Runs

def createHTLCClaimScript (signature pubkey preimage : Bytes) : Except String Bytes :=
  if signature.length ≠ dilithium3SigSize then .error "HTLC claim: signature must be 3309 bytes"
  else if pubkey.length ≠ dilithium3PkSize then .error "HTLC claim: pubkey must be 1952 bytes"
  else if preimage.length ≠ 32 then .error "HTLC claim: preimage must be 32 bytes"
  else .ok (pushData signature ++ pushData pubkey ++ pushData preimage ++ [0x51])

lemma createHTLCClaimScript_eq_ok_iff {signature pubkey preimage built : Bytes} :
    createHTLCClaimScript signature pubkey preimage = .ok built ↔
      signature.length = dilithium3SigSize ∧ pubkey.length = dilithium3PkSize ∧ preimage.length = 32 ∧
        built = pushData signature ++ pushData pubkey ++ pushData preimage ++ [0x51] := by
  unfold createHTLCClaimScript
  grind

section

variable {H : HashFunctions} {flags : ScriptVerifyFlags} {checker : SignatureChecker}
  {params : HTLCParameters} {script : Bytes}

variable (H flags checker) in
/-- The element that `OP_SHA3_256` takes when the scriptSig selects the claim branch. -/
def claimedElement (scriptSig : Bytes) : Option Bytes :=
  match evalScript H flags checker [] scriptSig with
  | .ok (selector :: preimage :: _) => if castToBool selector then some preimage else none
  | _ => none

lemma ensures_claimed {selector preimage : Bytes} {below : List Bytes} (created : createHTLCScript params = .ok script)
    (selects : castToBool selector = true) :
    Ensures H flags checker script (selector :: preimage :: below) [] fun _ _ =>
      (H.sha3_256 preimage).data = params.hashLock := by
  obtain ⟨lockSize, -, -, rfl⟩ := createHTLCScript_split created
  refine Ensures.opIf rfl fun top others isStack => ?_
  obtain ⟨rfl, rfl⟩ := cons.inj isStack
  rw [selects]
  refine Ensures.sha3_256 rfl fun element deeper isBelow => Ensures.pushData (by omega) ?_
  obtain ⟨rfl, rfl⟩ := cons.inj isBelow
  -- Whatever the rest of the script does, the lock has been compared.
  exact Ensures.equalVerify rfl fun locked _ _ _ _ _ => locked.symm

lemma hash_claimedElement {scriptSig preimage : Bytes} (created : createHTLCScript params = .ok script)
    (accepted : verifyScript H flags checker scriptSig script = .ok ())
    (hashed : claimedElement H flags checker scriptSig = some preimage) :
    (H.sha3_256 preimage).data = params.hashLock := by
  obtain ⟨stack, top, below, unlocked, locked, -⟩ := verifyScript_accepted accepted
  unfold claimedElement at hashed
  rw [unlocked] at hashed
  match stack, hashed with
  | selector :: element :: deeper, hashed =>
    by_cases selects : castToBool selector = true
    · obtain rfl : element = preimage := by simpa [selects] using hashed
      exact (ensures_claimed created selects).evalScript locked
    · simp [selects] at hashed

lemma Runs.skipPushData {data rest : Bytes} {stack : List Bytes} {count : Nat} {final : ScriptState}
    (small : data.length < 0x4c) (fits : stack.length ≤ maxStackSize)
    (runs : Runs H flags checker rest ⟨stack, [false], count⟩ final) :
    Runs H flags checker (pushData data ++ rest) ⟨stack, [false], count⟩ final := by
  rw [pushData, if_pos small]
  by_cases empty : data = []
  · subst empty
    have kept : checkStackSize ⟨stack, [false], count⟩ = .ok ⟨stack, [false], count⟩ := if_neg (Nat.not_lt.mpr fits)
    refine step ?_ runs
    show (Except.bind (checkStackSize ⟨stack, [false], count⟩) _) = _
    rw [kept]
    rfl
  · exact step (scriptStep_push (length_pos_iff.mpr empty) small _) runs

lemma evalScript_claim {signature pubkey preimage scriptSig : Bytes}
    (built : createHTLCClaimScript signature pubkey preimage = .ok scriptSig) :
    evalScript H flags checker [] scriptSig = .ok [[1], preimage, pubkey, signature] := by
  obtain ⟨sigSize, pkSize, preimageSize, isBuilt⟩ := createHTLCClaimScript_eq_ok_iff.mp built
  have long (data : Bytes) (large : 0xff < data.length) (bound : data.length ≤ 0xffff) :
      pushData data = 0x4d :: LittleEndian.encode 2 data.length ++ data := by
    rw [pushData, if_neg (by omega), if_neg (by omega), if_pos bound]
  have short : pushData preimage = UInt8.ofNat preimage.length :: preimage := by
    rw [pushData, if_pos (by omega)]
  rw [long signature (by rw [sigSize]; decide) (by rw [sigSize]; decide),
    long pubkey (by rw [pkSize]; decide) (by rw [pkSize]; decide), short] at isBuilt
  have runs : Runs H flags checker scriptSig ⟨[], [], 0⟩ ⟨[[1], preimage, pubkey, signature], [], 0⟩ := by
    rw [isBuilt]
    simp only [append_assoc, cons_append]
    refine pushTwo (by rw [sigSize]; decide) (pushTwo (by rw [pkSize]; decide) ?_)
    exact step (scriptStep_push (by omega) (by omega) _) (step rfl (nil _))
  refine runs.evalScript ?_
  simp [isBuilt, sigSize, pkSize, preimageSize, LittleEndian.encode_length, dilithium3SigSize,
    dilithium3PkSize, maxScriptSize]

lemma evalScript_htlc {preimage pubkey signature : Bytes} (created : createHTLCScript params = .ok script)
    (locked : (H.sha3_256 preimage).data = params.hashLock) (owned : hash160 H pubkey = params.claimPubkeyHash) :
    evalScript H flags checker [[1], preimage, pubkey, signature] script =
      .ok [ofBool (checker.checkSig signature pubkey)] := by
  obtain ⟨lockSize, claimSize, refundSize, isScript⟩ := createHTLCScript_split created
  have timeoutSize := (ofVch_serialize params.timeoutHeight).1
  have lockPush : pushData params.hashLock = UInt8.ofNat params.hashLock.length :: params.hashLock := by
    rw [pushData, if_pos (by omega)]
  rw [lockPush] at isScript
  have width (keyHash : Bytes) (sized : keyHash.length = 20) : (0x14 : UInt8) = UInt8.ofNat keyHash.length := by
    rw [sized]; rfl
  -- The refund branch is read through without effect.
  have refund (answer : Bytes) : Runs H flags checker (pushData (serialize (Int64.ofNat params.timeoutHeight.toNat)) ++
      0xb1 :: 0x75 :: (0x76 :: 0xa9 :: 0x14 :: params.refundPubkeyHash ++ 0x88 :: 0xac :: [0x68]))
      ⟨[answer], [false], 8⟩ ⟨[answer], [], 15⟩ := by
    refine skipPushData (by omega) (by simp [maxStackSize]) ?_
    refine step rfl (step rfl (step rfl (step rfl ?_)))
    rw [width _ refundSize]
    refine step (scriptStep_push (by omega) (by omega) _) ?_
    exact step rfl (step rfl (step rfl (nil _)))
  have claim (rest : Bytes) (final : ScriptState)
      (runs : Runs H flags checker rest ⟨[ofBool (checker.checkSig signature pubkey)], [true], 7⟩ final) :
      Runs H flags checker (0x76 :: 0xa9 :: 0x14 :: params.claimPubkeyHash ++ 0x88 :: 0xac :: rest)
        ⟨[pubkey, signature], [true], 3⟩ final := by
    refine step rfl (step rfl ?_)
    rw [width _ claimSize]
    refine step (scriptStep_push (by omega) (by omega) _) ?_
    have few : 5 < maxOpsPerScript := by decide
    exact step (scriptStep_equalVerify owned.symm rfl few (by simp [maxStackSize])) (step rfl runs)
  have runs : Runs H flags checker script ⟨[[1], preimage, pubkey, signature], [], 0⟩
      ⟨[ofBool (checker.checkSig signature pubkey)], [], 15⟩ := by
    rw [isScript]
    refine step rfl (step rfl (step (scriptStep_push (by omega) (by omega) _) ?_))
    have few : 2 < maxOpsPerScript := by decide
    refine step (scriptStep_equalVerify locked.symm rfl few (by simp [maxStackSize])) ?_
    exact claim _ _ (step rfl (refund _))
  refine runs.evalScript ?_
  have timeoutPush : (pushData (serialize (Int64.ofNat params.timeoutHeight.toNat))).length ≤ 6 := by
    rw [pushData, if_pos (by omega), length_cons]
    omega
  simp only [isScript, length_cons, length_append, length_nil, lockSize, claimSize, refundSize, maxScriptSize]
  omega

end

/-- With a valid signature and key of the second claimant, the element hashed by an accepted claim of the
first contract claims the second exactly if it has the length the builder asks for. -/
theorem swap_claimable_iff (H : HashFunctions) (firstFlags secondFlags : ScriptVerifyFlags)
    (firstChecker : SignatureChecker)
    (dilithium3Verify : Bytes → Bytes → Bytes → Bool) (tx : CTransaction) (inputIdx : Nat) (chainId : UInt32)
    (first second : HTLCParameters) (firstScript secondScript scriptSig preimage signature pubkey : Bytes)
    (sameLock : first.hashLock = second.hashLock) (firstCreated : createHTLCScript first = .ok firstScript)
    (secondCreated : createHTLCScript second = .ok secondScript)
    (accepted : verifyScript H firstFlags firstChecker scriptSig firstScript = .ok ())
    (hashed : claimedElement H firstFlags firstChecker scriptSig = some preimage)
    (owned : hash160 H pubkey = second.claimPubkeyHash)
    (signed : (transactionSignatureChecker H dilithium3Verify tx inputIdx chainId).checkSig signature pubkey = true) :
    (∃ built, createHTLCClaimScript signature pubkey preimage = .ok built ∧
      verifyScript H secondFlags (transactionSignatureChecker H dilithium3Verify tx inputIdx chainId) built
        secondScript =
        .ok ()) ↔ preimage.length = 32 := by
  constructor
  · rintro ⟨built, created, -⟩
    exact (createHTLCClaimScript_eq_ok_iff.mp created).2.2.1
  · intro sized
    obtain ⟨sigSize, pkSize⟩ : signature.length = dilithium3SigSize ∧ pubkey.length = dilithium3PkSize := by
      replace signed : TransactionSignatureChecker.checkSig H dilithium3Verify tx inputIdx chainId
        signature pubkey = true := signed
      unfold TransactionSignatureChecker.checkSig at signed
      grind
    have created := createHTLCClaimScript_eq_ok_iff.mpr ⟨sigSize, pkSize, sized, rfl⟩
    refine ⟨_, created, ?_⟩
    have locked := (hash_claimedElement firstCreated accepted hashed).trans sameLock
    simp only [verifyScript, evalScript_claim created, evalScript_htlc secondCreated locked owned,
      signed, bind, Except.bind]
    rfl

section Sample

def swapLeg : HTLCParameters := { smallContract with hashLock := (Uint256.ofNat 32).data }

def swapChecker (chainId : UInt32) : SignatureChecker :=
  transactionSignatureChecker lengthHash (fun _ _ _ => true) refundPayment 0 chainId

def swapSignature : Bytes := List.replicate dilithium3SigSize 1

def swapKey : Bytes := List.replicate dilithium3PkSize 2

def swapScriptSig (size : Nat) : Bytes :=
  pushData swapSignature ++ pushData swapKey ++ pushData (List.replicate size 5) ++ [0x51]

theorem swap_claimed_twice : ∃ built script, createHTLCScript swapLeg = .ok script ∧
    createHTLCClaimScript swapSignature swapKey (List.replicate 32 5) = .ok built ∧
    verifyScript lengthHash ⟨true, true⟩ (swapChecker 1) built script = .ok () := by
  have claimed : ∃ script, createHTLCScript swapLeg = .ok script ∧
      verifyScript lengthHash ⟨true, true⟩ (swapChecker 2) (swapScriptSig 32) script = .ok () ∧
      claimedElement lengthHash ⟨true, true⟩ (swapChecker 2) (swapScriptSig 32) = some (replicate 32 5) :=
    ⟨_, rfl, by decide +kernel, by decide +kernel⟩
  obtain ⟨script, created, accepted, hashed⟩ := claimed
  obtain ⟨built, isBuilt, unlocks⟩ := (swap_claimable_iff lengthHash ⟨true, true⟩ ⟨true, true⟩ _ (fun _ _ _ => true)
    refundPayment 0 1 swapLeg swapLeg script script _ _ swapSignature swapKey rfl created created accepted hashed
    (by decide +kernel) (by decide +kernel)).mpr rfl
  exact ⟨built, script, created, isBuilt, unlocks⟩

/-- A preimage of seven bytes claims the contract, and the builder refuses it. -/
theorem short_preimage_refused : ∃ script, createHTLCScript smallContract = .ok script ∧
    verifyScript lengthHash ⟨true, true⟩ (swapChecker 1) (swapScriptSig 7) script = .ok () ∧
    claimedElement lengthHash ⟨true, true⟩ (swapChecker 1) (swapScriptSig 7) = some (List.replicate 7 5) ∧
    hash160 lengthHash swapKey = smallContract.claimPubkeyHash ∧ (swapChecker 1).checkSig swapSignature swapKey = true ∧
    createHTLCClaimScript swapSignature swapKey (List.replicate 7 5) =
      .error "HTLC claim: preimage must be 32 bytes" :=
  ⟨_, rfl, by decide +kernel, by decide +kernel, by decide +kernel, by decide +kernel, by decide +kernel⟩

end Sample

end Dilithion
