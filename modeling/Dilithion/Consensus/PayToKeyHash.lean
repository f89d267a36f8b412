import Dilithion.Consensus.TxValidation
import Dilithion.Script.Rules

/-! What a signature commits to. The interpreter and the builder of batches ask for the signature of one
message, the hash of the signing hash, the input index, the version and the chain id; without collisions
among the strings hashed for two inputs, equal messages come from equal transactions up to scriptSigs. -/

namespace Dilithion

open Lib Lib.Decoder CTransaction TransactionSignatureChecker CTransactionValidator List

def CTransaction.unsigned (tx : CTransaction) : CTransaction :=
  { tx with vin := tx.vin.map fun txin => { txin with scriptSig := [] } }

def CTransaction.signingPreimage (tx : CTransaction) : Bytes := tx.unsigned.serialize

variable {tx : CTransaction}

lemma CTransaction.Sized.unsigned (sized : tx.Sized) : tx.unsigned.Sized where
  inputs := by simpa [CTransaction.unsigned] using sized.inputs
  scriptSigs := by
    intro txin member
    obtain ⟨original, -, rfl⟩ := mem_map.mp member
    exact Nat.two_pow_pos 64
  outputs := sized.outputs
  scriptPubKeys := sized.scriptPubKeys

inductive Signs (H : HashFunctions) (chainId : UInt32) (tx : CTransaction) (inputIdx : UInt32)
    (message : Bytes) : Prop where
  /-- The interpreter accepts a signature of this message, and of no other. -/
  | interpreter (sig pubkey : Bytes)
      (asked : checkSig H (fun _ asked _ => asked == message) tx inputIdx.toNat chainId sig pubkey)
  /-- The task for the batch verifier holds the message. -/
  | batch (env : Env) (scriptSig scriptPubKey : Bytes) (task : CSignatureTask) (hashes : env.hashes = H)
      (chain : env.params.chainID = chainId)
      (prepared : prepareSignatureData env tx inputIdx.toNat scriptSig scriptPubKey = .ok task)
      (holds : task.message = message)

variable {H : HashFunctions} {chainId : UInt32}

lemma checkSig_asks {verify : Bytes → Bytes → Bytes → Bool} {inputIdx : Nat} {sig pubkey : Bytes}
    (accepted : checkSig H verify tx inputIdx chainId sig pubkey) :
    verify sig (H.sha3_256 (signatureMessage H tx inputIdx chainId)).data pubkey := by
  unfold checkSig at accepted
  grind

lemma Signs.message_eq {inputIdx : UInt32} {message : Bytes} (signs : Signs H chainId tx inputIdx message) :
    message = (H.sha3_256 (signatureMessage H tx inputIdx.toNat chainId)).data := by
  cases signs with
  | interpreter sig pubkey asked => exact (eq_of_beq (checkSig_asks asked)).symm
  | batch env scriptSig scriptPubKey task hashes chain prepared holds =>
    subst hashes chain
    rw [← holds]
    unfold prepareSignatureData at prepared
    grind

variable {tx' : CTransaction}

lemma signatureMessage_inj {inputIdx inputIdx' chainId' : UInt32}
    (same : signatureMessage H tx inputIdx.toNat chainId = signatureMessage H tx' inputIdx'.toNat chainId') :
    tx.getSigningHash H = tx'.getSigningHash H ∧ inputIdx = inputIdx' ∧ chainId = chainId' := by
  simp only [signatureMessage, append_assoc, UInt32.ofNat_toNat] at same
  obtain ⟨hashes, afterHash⟩ := readable_hash _ _ trivial trivial _ _ same
  obtain ⟨indexes, afterIndex⟩ := readable_uint32 _ _ trivial trivial _ _ afterHash
  obtain ⟨-, afterVersion⟩ := readable_uint32 _ _ trivial trivial _ _ afterIndex
  obtain ⟨chains, -⟩ := readable_uint32 _ _ trivial trivial [] [] (by simpa using afterVersion)
  exact ⟨hashes, indexes, chains⟩

structure CTransaction.SameSigned (tx tx' : CTransaction) : Prop where
  nVersion : tx.nVersion = tx'.nVersion
  inputs : tx.vin.map (fun txin => (txin.prevout, txin.nSequence)) = tx'.vin.map fun txin =>
    (txin.prevout, txin.nSequence)
  vout : tx.vout = tx'.vout
  nLockTime : tx.nLockTime = tx'.nLockTime

lemma CTransaction.sameSigned_of_unsigned (same : tx.unsigned = tx'.unsigned) : tx.SameSigned tx' := by
  simp only [unsigned, mk.injEq] at same
  obtain ⟨version, inputs, outputs, lockTime⟩ := same
  have spent := congrArg (map fun txin : CTxIn => (txin.prevout, txin.nSequence)) inputs
  exact ⟨version, by simpa [Function.comp_def] using spent, outputs, lockTime⟩

def hashedStrings (H : HashFunctions) (tx : CTransaction) (inputIdx chainId : UInt32) : List Bytes :=
  [tx.signingPreimage, signatureMessage H tx inputIdx.toNat chainId]

/-- One message is not the message of two inputs: the index, the chain id and everything but the
scriptSigs are the same. -/
theorem signature_message_binds (H : HashFunctions) (tx tx' : CTransaction)
    (inputIdx inputIdx' chainId chainId' : UInt32)
    (message : Bytes) (sized : tx.Sized) (sized' : tx'.Sized)
    (injective : Set.InjOn H.sha3_256
      {string | string ∈ hashedStrings H tx inputIdx chainId ∨ string ∈ hashedStrings H tx' inputIdx' chainId'})
    (signs : Signs H chainId tx inputIdx message) (signs' : Signs H chainId' tx' inputIdx' message) :
    tx.SameSigned tx' ∧ inputIdx = inputIdx' ∧ chainId = chainId' := by
  have digests : H.sha3_256 (signatureMessage H tx inputIdx.toNat chainId) =
      H.sha3_256 (signatureMessage H tx' inputIdx'.toNat chainId') :=
    Uint256.ext_data (signs.message_eq.symm.trans signs'.message_eq)
  have messages := injective (.inl (by simp [hashedStrings])) (.inr (by simp [hashedStrings])) digests
  obtain ⟨hashes, indexes, chains⟩ := signatureMessage_inj messages
  have preimages : tx.signingPreimage = tx'.signingPreimage :=
    injective (.inl (by simp [hashedStrings])) (.inr (by simp [hashedStrings])) hashes
  obtain ⟨same, -⟩ := readable_transaction _ _ sized.unsigned sized'.unsigned [] [] (congrArg (· ++ []) preimages)
  exact ⟨sameSigned_of_unsigned same, indexes, chains⟩

def signedPayment (scriptSig : Bytes) : CTransaction :=
  ⟨1, [⟨⟨Uint256.ofNat 1, 0⟩, scriptSig, 0xFFFFFFFF⟩], [⟨50000, [0x6a]⟩], 0⟩

theorem resigned_payment_is_bound :
    (signedPayment [1]).SameSigned (signedPayment [2, 3]) ∧ (0 : UInt32) = 0 ∧ (7 : UInt32) = 7 := by
  have asks : ∀ tx ∈ [signedPayment [1], signedPayment [2, 3]],
      Signs lengthHash 7 tx 0 (lengthHash.sha3_256 (replicate 44 0)).data := by
    intro tx member
    refine Signs.interpreter (replicate dilithium3SigSize 1) (replicate dilithium3PkSize 1) ?_
    revert tx
    decide +kernel
  have apart : ∀ string ∈ hashedStrings lengthHash (signedPayment [1]) 0 7 ++
        hashedStrings lengthHash (signedPayment [2, 3]) 0 7,
      ∀ other ∈ hashedStrings lengthHash (signedPayment [1]) 0 7 ++ hashedStrings lengthHash (signedPayment [2, 3]) 0 7,
      lengthHash.sha3_256 string = lengthHash.sha3_256 other → string = other := by
    decide +kernel
  refine signature_message_binds lengthHash _ _ 0 0 7 7 _ ⟨?_, ?_, ?_, ?_⟩ ⟨?_, ?_, ?_, ?_⟩ ?_
    (asks _ (by simp)) (asks _ (by simp))
  case refine_9 =>
    intro string member other member'
    exact apart string (mem_append.mpr member) other (mem_append.mpr member')
  all_goals simp [signedPayment]

lemma isPayToPublicKeyHash_split {script : Bytes} (isKeyHash : isPayToPublicKeyHash script = true) :
    ((script.drop 3).take 20).length = 20 ∧
      script = 0x76 :: 0xa9 :: 0x14 :: (script.drop 3).take 20 ++ [0x88, 0xac] := by
  simp only [isPayToPublicKeyHash, Bool.and_eq_true, beq_iff_eq] at isKeyHash
  obtain ⟨⟨size, front⟩, back⟩ := isKeyHash
  refine ⟨by simp [size], ?_⟩
  calc script = script.take 3 ++ ((script.drop 3).take 20 ++ (script.drop 3).drop 20) := by
        rw [List.take_append_drop, List.take_append_drop]
    _ = _ := by
        rw [front, List.drop_drop, back]
        rfl

def SignedBy (H : HashFunctions) (dilithium3Verify : Bytes → Bytes → Bytes → Bool) (tx : CTransaction) (inputIdx : Nat)
    (chainId : UInt32) (sig pubkey : Bytes) : Prop :=
  dilithium3Verify sig (H.sha3_256 (signatureMessage H tx inputIdx chainId)).data pubkey = true

lemma castToBool_ofBool (value : Bool) : castToBool (ofBool value) = value := by
  cases value <;> rfl

/-- The script leaves the answer of the signature check for a key with the hash. -/
lemma ensures_payToKeyHash {H : HashFunctions} {flags : ScriptVerifyFlags} {checker : SignatureChecker} {script : Bytes}
    (isKeyHash : isPayToPublicKeyHash script = true) (stack : List Bytes) :
    Ensures H flags checker script stack [] fun final _ =>
      ∃ pubkey sig below, stack = pubkey :: sig :: below ∧ hash160 H pubkey = (script.drop 3).take 20 ∧
        final = ofBool (checker.checkSig sig pubkey) :: below := by
  obtain ⟨sized, split⟩ := isPayToPublicKeyHash_split isKeyHash
  generalize (script.drop 3).take 20 = keyHash at sized split ⊢
  subst split
  exact Ensures.payToKeyHash rfl sized fun pubkey sig below isStack hashes =>
    Ensures.nil ⟨pubkey, sig, below, isStack, hashes, rfl⟩

lemma length_pushFormat {scriptSig : Bytes} (legacy : isLegacyScriptSig scriptSig = true) :
    (pushFormat scriptSig).length = scriptSig.length + 2 := by
  have size : scriptSig.length = 2 + dilithium3SigSize + 2 + dilithium3PkSize := by
    simp only [isLegacyScriptSig, Bool.and_eq_true, beq_iff_eq] at legacy
    exact legacy.1
  simp [pushFormat, legacy, size, dilithium3SigSize, dilithium3PkSize]

lemma pushFormat_idem (scriptSig : Bytes) : pushFormat (pushFormat scriptSig) = pushFormat scriptSig := by
  by_cases legacy : isLegacyScriptSig scriptSig = true
  · have size := length_pushFormat legacy
    have other : isLegacyScriptSig (pushFormat scriptSig) = false := by
      simp only [isLegacyScriptSig, Bool.and_eq_true, beq_iff_eq] at legacy
      simp only [isLegacyScriptSig, size, legacy.1]
      rfl
    generalize pushFormat scriptSig = pushes at other ⊢
    simp [pushFormat, other]
  · simp [pushFormat, legacy]

lemma verifyScript_pushFormat (env : Env) (tx : CTransaction) (inputIdx : Nat) (scriptSig scriptPubKey : Bytes) :
    CTransactionValidator.verifyScript env tx inputIdx (pushFormat scriptSig) scriptPubKey =
      CTransactionValidator.verifyScript env tx inputIdx scriptSig scriptPubKey := by
  have sizes : maxScriptSize < (pushFormat scriptSig).length ↔ maxScriptSize < scriptSig.length := by
    by_cases legacy : isLegacyScriptSig scriptSig = true
    · rw [length_pushFormat legacy]
      simp only [isLegacyScriptSig, Bool.and_eq_true, beq_iff_eq] at legacy
      rw [legacy.1]
      decide
    · simp [pushFormat, legacy]
  unfold CTransactionValidator.verifyScript
  rw [pushFormat_idem]
  simp only [sizes]

/-- Whatever bytes unlock an output that pays to a key hash, a key with the hash has signed the message
for this input; and the legacy form of a signature script fares as the pushes it stands for. -/
theorem pay_to_key_hash_safe (env : Env) (tx : CTransaction) (inputIdx : Nat) (scriptSig scriptPubKey : Bytes)
    (isKeyHash : isPayToPublicKeyHash scriptPubKey = true) :
    (CTransactionValidator.verifyScript env tx inputIdx scriptSig scriptPubKey = .ok () →
      ∃ pubkey sig, hash160 env.hashes pubkey = (scriptPubKey.drop 3).take 20 ∧
        SignedBy env.hashes env.dilithium3Verify tx inputIdx env.params.chainID sig pubkey) ∧
    CTransactionValidator.verifyScript env tx inputIdx (CTransactionValidator.pushFormat scriptSig) scriptPubKey =
      CTransactionValidator.verifyScript env tx inputIdx scriptSig scriptPubKey := by
  refine ⟨fun accepted => ?_, verifyScript_pushFormat env tx inputIdx scriptSig scriptPubKey⟩
  unfold CTransactionValidator.verifyScript at accepted
  split at accepted
  · cases accepted
  · split at accepted
    · cases accepted
    · obtain ⟨pushed, top, below, -, locked, isTrue⟩ := verifyScript_accepted accepted
      obtain ⟨pubkey, sig, deeper, -, hashes, final⟩ := (ensures_payToKeyHash isKeyHash pushed).evalScript locked
      obtain ⟨rfl, rfl⟩ := List.cons.inj final
      rw [castToBool_ofBool] at isTrue
      exact ⟨pubkey, sig, hashes, checkSig_asks isTrue⟩

def trustingEnv : Env where
  hashes := lengthHash
  dilithium3Verify sig _ _ := sig.head? == some 1

def legacyScriptSig : Bytes :=
  LittleEndian.encode 2 dilithium3SigSize ++ List.replicate dilithium3SigSize 1 ++
    LittleEndian.encode 2 dilithium3PkSize ++
    List.replicate dilithium3PkSize 2

def keyHashScript : Bytes := 0x76 :: 0xa9 :: 0x14 :: (Uint256.ofNat 32).data.take 20 ++ [0x88, 0xac]

theorem pay_to_key_hash_safe_signed :
    CTransactionValidator.verifyScript trustingEnv (signedPayment legacyScriptSig) 0 legacyScriptSig keyHashScript =
      .ok () ∧
      ∃ pubkey sig, hash160 lengthHash pubkey = (Uint256.ofNat 32).data.take 20 ∧
        SignedBy lengthHash trustingEnv.dilithium3Verify
          (signedPayment legacyScriptSig) 0 trustingEnv.params.chainID sig pubkey := by
  have accepted : CTransactionValidator.verifyScript trustingEnv (signedPayment legacyScriptSig) 0 legacyScriptSig
      keyHashScript = .ok () := by
    decide +kernel
  refine ⟨accepted, ?_⟩
  exact (pay_to_key_hash_safe trustingEnv _ 0 legacyScriptSig keyHashScript (by decide)).1 accepted

end Dilithion
