import Dilithion.Consensus.BatchVerifier
import Dilithion.Node.UtxoPending

/-! Whether an accepted transaction pays out no more than it spends. The total of the inputs is exact,
but the total of the outputs is a wrapping sum that also counts the outputs the range checks skip. -/

namespace Dilithion

open Lib Lib.Stateful CTransactionValidator List

section

open Lib.Ledger Keeps Int64 Int

/-- What the set answers does not depend on what it has been asked before. -/
def CUTXOSet.Steady (env : Env) (s : CUTXOSet) : Prop :=
  ∀ asked, (s.afterLookups env asked).view env = s.view env

lemma CUTXOSet.Coherent.steady {env : Env} {s : CUTXOSet} (coherent : s.Coherent) : s.Steady env :=
  fun asked => coherent.view_afterLookups asked

structure Reads (env : Env) (ledger : UTXOLedger) (s : CUTXOSet) : Prop where
  answers : s.view env = ledger
  steady : s.Steady env

lemma Reads.getUTXO {env : Env} {ledger : UTXOLedger} {s : CUTXOSet} (reads : Reads env ledger s)
    (outpoint : COutPoint) : Reads env ledger (s.getUTXO env outpoint).2 := by
  have later : (s.getUTXO env outpoint).2.view env = s.view env := reads.steady [outpoint]
  refine ⟨later.trans reads.answers, fun asked => ?_⟩
  rw [later]
  exact reads.steady (outpoint :: asked)

lemma lookupUTXO_keeps (env : Env) (ledger : UTXOLedger) (outpoint : COutPoint) :
    Keeps (Reads env ledger) (lookupUTXO env outpoint) (fun found => found = ledger outpoint) :=
  query fun _ reads => ⟨reads.getUTXO outpoint, congrFun reads.answers outpoint⟩

lemma moneyRange_iff (nValue : CAmount) :
    moneyRange nValue = true ↔ 0 ≤ nValue.toInt ∧ nValue.toInt ≤ 2100000000000000 := by
  have limit : maxMoney.toInt = 2100000000000000 := by decide
  have zero : (0 : CAmount).toInt = 0 := by decide
  simp [moneyRange, le_iff_toInt_le, limit, zero]

lemma toInt_toInt64 (nValue : UInt64) : nValue.toInt64.toInt = bmod nValue.toNat (2 ^ 64) :=
  BitVec.toInt_eq_toNat_bmod nValue.toBitVec

/-- An amount of the wire format that is in range as a signed amount is exact. -/
lemma toInt_of_moneyRange {nValue : UInt64} (inRange : moneyRange nValue.toInt64 = true) :
    nValue.toInt64.toInt = nValue.toNat := by
  have bounds := (moneyRange_iff _).mp inRange
  have below : nValue.toNat < 2 ^ 64 := nValue.toNat_lt
  rw [toInt_toInt64] at bounds ⊢
  simp only [bmod_def] at bounds ⊢
  omega

variable (ledger : UTXOLedger)

def referencedValue (txin : CTxIn) : Nat :=
  match ledger txin.prevout with
  | none => 0
  | some entry => entry.out.nValue.toNat

def totalReferenced (tx : CTransaction) : Nat :=
  (tx.vin.map (referencedValue ledger)).sum

def totalPaid (tx : CTransaction) : Nat := (tx.vout.map (fun txout => txout.nValue.toNat)).sum

namespace CTransactionValidator

variable {totalIn : CAmount}

lemma addInputValue_exact {newTotal : CAmount} {entry : CUTXOEntry} (before : moneyRange totalIn = true)
    (added : addInputValue totalIn entry = .ok newTotal) :
    newTotal.toInt = totalIn.toInt + entry.out.nValue.toNat ∧ moneyRange newTotal = true := by
  unfold addInputValue at added
  split at added
  · cases added
  · rename_i valueRange
    split at added
    · cases added
    · rename_i totalRange
      simp only [Bool.not_eq_true, Bool.not_eq_false] at valueRange totalRange
      cases added
      have exactValue := toInt_of_moneyRange valueRange
      have value := (moneyRange_iff _).mp valueRange
      have total := (moneyRange_iff _).mp before
      refine ⟨?_, totalRange⟩
      rw [toInt_add]
      simp only [bmod_def]
      omega

/-- The input total is the sum of the referenced values, and stays in range on the way. -/
lemma calculateTotalInputValue_keeps (env : Env) (ledger : UTXOLedger) (vin : List CTxIn)
    (before : moneyRange totalIn = true) :
    Keeps (Reads env ledger) (calculateTotalInputValue env totalIn vin)
      (fun total => total.toInt = totalIn.toInt + (vin.map (referencedValue ledger)).sum ∧
        moneyRange total = true) := by
  induction vin generalizing totalIn with
  | nil => exact pure ⟨by simp, before⟩
  | cons txin rest ih =>
    refine bind (lookupUTXO_keeps env ledger txin.prevout) fun found answer => ?_
    cases found with
    | none => exact throw _ _
    | some entry =>
      refine bind (check _) fun newTotal added => ?_
      obtain ⟨sum, range⟩ := addInputValue_exact before added
      refine (ih range).weaken fun total result => ⟨?_, result.2⟩
      have here : referencedValue ledger txin = entry.out.nValue.toNat := by
        simp only [referencedValue, ← answer]
      rw [map_cons, sum_cons]
      omega

lemma totalOutputValue_eq (vout : List CTxOut) :
    (totalOutputValue vout).toInt = bmod ((vout.map (fun txout => txout.nValue.toNat)).sum : Nat) (2 ^ 64) := by
  -- The accumulator is any amount, so that the fold can be followed from the left.
  suffices from_ : ∀ start : CAmount, (vout.foldl (fun totalOut txout => totalOut + txout.nValue.toInt64) start).toInt =
        bmod (start.toInt + ((vout.map (fun txout => txout.nValue.toNat)).sum : Nat)) (2 ^ 64) by
    have total := from_ 0
    rwa [show (0 : CAmount).toInt = 0 by decide, zero_add] at total
  induction vout with
  | nil =>
    intro start
    have low := le_toInt start
    have high := toInt_lt start
    simp only [foldl_nil, map_nil, sum_nil, bmod_def]
    omega
  | cons txout rest ih =>
    intro start
    have regroup : start.toInt + bmod txout.nValue.toNat (2 ^ 64) +
        ((rest.map (fun other => other.nValue.toNat)).sum : Nat) = bmod txout.nValue.toNat (2 ^ 64) +
            (start.toInt + ((rest.map (fun other => other.nValue.toNat)).sum : Nat)) := by
      omega
    rw [foldl_cons, ih, toInt_add, toInt_toInt64, bmod_add_bmod, regroup, bmod_add_bmod,
      map_cons, sum_cons]
    congr 1
    omega

variable {tx : CTransaction}

lemma checkTotals_ok {totalOut txFee : CAmount} (accepted : checkTotals tx totalIn totalOut = .ok txFee) :
    totalOut.toInt ≤ totalIn.toInt ∧ txFee = totalIn - totalOut ∧ moneyRange txFee = true := by
  unfold checkTotals at accepted
  split at accepted
  · cases accepted
  · rename_i covered
    dsimp only at accepted
    split at accepted
    · cases accepted
    · rename_i range
      split at accepted
      · cases accepted
      · split at accepted
        · cases accepted
        · cases accepted
          refine ⟨?_, rfl, by simpa using range⟩
          rw [lt_iff_toInt_lt] at covered
          omega

structure FeeOf (ledger : UTXOLedger) (tx : CTransaction) (txFee : CAmount) : Prop where
  inputs : totalReferenced ledger tx ≤ 2100000000000000
  covered : Int.bmod (totalPaid tx) (2 ^ 64) ≤ totalReferenced ledger tx
  fee : txFee.toInt = Int.bmod (totalReferenced ledger tx - Int.bmod (totalPaid tx) (2 ^ 64)) (2 ^ 64)
  range : 0 ≤ txFee.toInt ∧ txFee.toInt ≤ 2100000000000000

section

variable (env : Env) (context : ValidationContext) (ledger : UTXOLedger)

def InputsMature (height : UInt32) (vin : List CTxIn) : Prop :=
  ∀ txin ∈ vin, ∃ entry, ledger txin.prevout = some entry ∧ checkMaturity env height entry = .ok ()

lemma checkCoinbaseMaturity_keeps (height : UInt32) (vin : List CTxIn) :
    Keeps (Reads env ledger) (checkCoinbaseMaturity env height vin) (fun _ => InputsMature env ledger height vin) := by
  induction vin with
  | nil => exact pure nofun
  | cons txin rest ih =>
    have here : Keeps (Reads env ledger) (checkInputMaturity env height txin)
        (fun _ => ∃ entry, ledger txin.prevout = some entry ∧ checkMaturity env height entry = .ok ()) := by
      refine bind (lookupUTXO_keeps env ledger txin.prevout) fun found answer => ?_
      cases found with
      | none => exact throw _ _
      | some entry => exact (Keeps.check _).weaken fun _ mature => ⟨entry, answer.symm, mature⟩
    exact bind here fun _ first => ih.weaken fun _ others => forall_mem_cons.mpr ⟨first, others⟩

/-- What the fee is computed from is there, and mature. -/
lemma checkTransactionInputs_keeps {tx : CTransaction} (regular : tx.isCoinBase = false) (currentHeight : UInt32) :
    Keeps (Reads env ledger) (checkTransactionInputs env context tx currentHeight)
      (fun txFee => FeeOf ledger tx txFee ∧ InputsMature env ledger currentHeight tx.vin) := by
  have looks : ∀ set outpoint, Reads env ledger set → Reads env ledger (set.getUTXO env outpoint).2 :=
    fun _ outpoint reads => reads.getUTXO outpoint
  unfold checkTransactionInputs
  rw [if_neg (by simp [regular])]
  refine bind (Keeps.check _) fun _ _ => ?_
  refine bind (checkInputsExist_looks looks tx.vin) fun _ _ => ?_
  refine bind (Keeps.onlyIf fun _ => checkRelativeLocks_looks looks currentHeight 0 tx.vin) fun _ _ => ?_
  refine bind (checkCoinbaseMaturity_keeps env ledger currentHeight tx.vin) fun _ mature => ?_
  refine bind (calculateTotalInputValue_keeps env ledger tx.vin (by decide)) fun totalIn sum => ?_
  refine (Keeps.check _).weaken fun txFee accepted => ?_
  obtain ⟨covered, difference, range⟩ := checkTotals_ok accepted
  have inputs : totalIn.toInt = totalReferenced ledger tx := by
    rw [sum.1, show (0 : CAmount).toInt = 0 by decide, zero_add, totalReferenced]
  have outputs : (totalOutputValue tx.vout).toInt = bmod (totalPaid tx) (2 ^ 64) := totalOutputValue_eq tx.vout
  have bound := (moneyRange_iff _).mp sum.2
  rw [inputs] at bound covered
  rw [outputs] at covered
  refine ⟨⟨by omega, covered, ?_, (moneyRange_iff _).mp range⟩, mature⟩
  rw [difference, toInt_sub, inputs, outputs]

end

/-- The fee is the exact difference exactly when the outputs do not wrap the signed total. -/
lemma FeeOf.exact_iff {ledger : UTXOLedger} {txFee : CAmount} (feeOf : FeeOf ledger tx txFee) :
    (totalPaid tx ≤ totalReferenced ledger tx ∧ txFee.toInt = totalReferenced ledger tx - totalPaid tx) ↔
      totalPaid tx < 2 ^ 63 := by
  have inputs := feeOf.inputs
  have covered := feeOf.covered
  have fee := feeOf.fee
  simp only [bmod_def] at covered fee
  constructor
  · omega
  · omega

section

variable (env : Env) (context : ValidationContext) (ledger : UTXOLedger)

lemma checkTransaction_keeps {tx : CTransaction} (regular : tx.isCoinBase = false) (currentHeight : UInt32) :
    Keeps (Reads env ledger) (checkTransaction env context tx currentHeight) (FeeOf ledger tx) := by
  refine bind (check _) fun _ _ => ?_
  refine bind (checkTransactionInputs_keeps env context ledger regular currentHeight) fun txFee kept => ?_
  exact bind (onlyIf fun _ => checkScripts_looks
      (fun _ outpoint reads => reads.getUTXO outpoint) context tx currentHeight) fun _ _ =>
    pure kept.1

end

/-- An accepted transaction pays out at most what it spends, with the difference as its fee, exactly
when its outputs add up to less than 2^63. -/
theorem checkTransaction_conserves_value_iff {env : Env} {context : ValidationContext} {s : CUTXOSet}
    {tx : CTransaction} {currentHeight : UInt32} {txFee : CAmount} (steady : s.Steady env)
    (regular : tx.isCoinBase = false)
    (accepted : (checkTransaction env context tx currentHeight s).1 = .ok txFee) :
    (totalPaid tx ≤ totalReferenced (s.view env) tx ∧
      txFee.toInt = totalReferenced (s.view env) tx - totalPaid tx) ↔ totalPaid tx < 2 ^ 63 := by
  have reads : Reads env (s.view env) s := ⟨rfl, steady⟩
  have kept := checkTransaction_keeps env context (s.view env) regular currentHeight s reads
  exact (kept.2 txFee accepted).exact_iff

end CTransactionValidator

lemma ok_of_toOption {α : Type} {outcome : Except String α} {value : α} (same : outcome.toOption = some value) :
    outcome = .ok value := by
  cases outcome with
  | error text => cases same
  | ok found => cases same; rfl

def payingTx : CTransaction := ⟨1, [⟨fundedOutPoint, [], 0xFFFFFFFF⟩], [⟨99000000, [0x51]⟩], 0⟩

/-- Pays fifty coins out of one: the data output brings the wrapped sum back into range. -/
def wrappingTx : CTransaction :=
  ⟨1, [⟨fundedOutPoint, [], 0xFFFFFFFF⟩], [⟨5000000000, [0x51]⟩, ⟨18446744068808551616, [0x6a]⟩], 0⟩

theorem checkTransaction_conserves_paying :
    (CTransactionValidator.checkTransaction doubleSpendEnv ⟨0, none⟩ payingTx 200
      (singletonSet fundedOutPoint fundedEntry)).1.toOption = some 1000000 ∧
    (totalPaid payingTx ≤ totalReferenced ((singletonSet fundedOutPoint fundedEntry).view doubleSpendEnv) payingTx ∧
      (1000000 : CAmount).toInt =
        totalReferenced ((singletonSet fundedOutPoint fundedEntry).view doubleSpendEnv) payingTx -
          totalPaid payingTx ↔ totalPaid payingTx < 2 ^ 63) := by
  have steady : (singletonSet fundedOutPoint fundedEntry).Steady doubleSpendEnv :=
    (singletonSet_coherent _ _).steady
  have accepted : (checkTransaction doubleSpendEnv ⟨0, none⟩ payingTx 200
      (singletonSet fundedOutPoint fundedEntry)).1.toOption = some 1000000 := by
    decide
  exact ⟨accepted, checkTransaction_conserves_value_iff steady (by decide) (ok_of_toOption accepted)⟩

/-- The validator accepts the transaction and reports a fee, though it pays out fifty times its input. -/
theorem checkTransaction_accepts_wrapping :
    (CTransactionValidator.checkTransaction doubleSpendEnv ⟨0, none⟩ wrappingTx 200
      (singletonSet fundedOutPoint fundedEntry)).1.toOption = some 1000000 ∧
    wrappingTx.isCoinBase = false ∧
    ¬ totalPaid wrappingTx ≤
      totalReferenced ((singletonSet fundedOutPoint fundedEntry).view doubleSpendEnv) wrappingTx := by
  decide

end

/-! The two ways to check the scripts of a transaction: one input after the other by the interpreter, or
all signatures in one batch. Each is brought to the conditions it puts on an input, and the answers are
compared. -/

open LittleEndian TransactionSignatureChecker Runs

section

variable {H : HashFunctions} {flags : ScriptVerifyFlags} {checker : SignatureChecker}

lemma runs_payToKeyHash {keyHash pubkey sig : Bytes} (sized : keyHash.length = 20)
    (hashes : hash160 H pubkey = keyHash) :
    Runs H flags checker (0x76 :: 0xa9 :: 0x14 :: keyHash ++ [0x88, 0xac]) ⟨[pubkey, sig], [], 0⟩
      ⟨[ofBool (checker.checkSig sig pubkey)], [], 4⟩ := by
  refine step rfl (step rfl ?_)
  have width : (0x14 : UInt8) = UInt8.ofNat keyHash.length := by rw [sized]; rfl
  rw [width]
  refine step (scriptStep_push (by omega) (by omega) _) ?_
  have few : 2 < maxOpsPerScript := by decide
  exact step (scriptStep_equalVerify hashes.symm rfl few (by simp [maxStackSize])) (step rfl (nil _))

lemma verifyScript_iff_run {scriptSig scriptPubKey pubkey sig : Bytes}
    (isKeyHash : isPayToPublicKeyHash scriptPubKey = true)
    (unlocked : Dilithion.evalScript H flags checker [] scriptSig = .ok [pubkey, sig]) :
    Dilithion.verifyScript H flags checker scriptSig scriptPubKey = .ok () ↔
      hash160 H pubkey = (scriptPubKey.drop 3).take 20 ∧ checker.checkSig sig pubkey = true := by
  constructor
  · intro accepted
    obtain ⟨pushed, top, below, left, locked, isTrue⟩ := verifyScript_accepted accepted
    rw [unlocked] at left
    cases left
    obtain ⟨key, signature, deeper, isStack, hashes, final⟩ := (ensures_payToKeyHash isKeyHash _).evalScript locked
    cases isStack
    cases final
    rw [castToBool_ofBool] at isTrue
    exact ⟨hashes, isTrue⟩
  · rintro ⟨hashes, signed⟩
    obtain ⟨sized, split⟩ := isPayToPublicKeyHash_split isKeyHash
    have runs : Runs H flags checker _ ⟨[pubkey, sig], [], 0⟩ _ := runs_payToKeyHash sized hashes
    have locked := runs.evalScript (by simp [sized, maxScriptSize])
    rw [← split, signed] at locked
    simp [Dilithion.verifyScript, unlocked, locked, bind, Except.bind, ofBool, castToBool]
    rfl

end

namespace LegacyScriptSig

variable (scriptSig : Bytes)

def signature : Bytes := (scriptSig.drop 2).take dilithium3SigSize

/-- The two bytes before the key, which the rewriting into pushes does not read. -/
def pubkeySize : Nat := value ((scriptSig.drop (2 + dilithium3SigSize)).take 2)

def pubkey : Bytes := scriptSig.drop (2 + dilithium3SigSize + 2)

variable {scriptSig}

section

variable (legacy : isLegacyScriptSig scriptSig = true)

include legacy

lemma length_eq : scriptSig.length = 2 + dilithium3SigSize + 2 + dilithium3PkSize := by
  simp only [isLegacyScriptSig, Bool.and_eq_true, beq_iff_eq] at legacy
  exact legacy.1

lemma length_signature : (signature scriptSig).length = dilithium3SigSize := by
  rw [signature, length_take, length_drop, length_eq legacy]
  decide

lemma length_pubkey : (pubkey scriptSig).length = dilithium3PkSize := by
  rw [pubkey, length_drop, length_eq legacy]
  decide

lemma pushFormat_eq : pushFormat scriptSig = 0x4d :: encode 2 (signature scriptSig).length ++ (signature scriptSig ++
    (0x4d :: encode 2 (pubkey scriptSig).length ++ (pubkey scriptSig ++ []))) := by
  rw [length_signature legacy, length_pubkey legacy, pushFormat, if_pos legacy, signature, pubkey]
  simp

lemma evalScript_pushFormat {H : HashFunctions} {flags : ScriptVerifyFlags} {checker : SignatureChecker} :
    evalScript H flags checker [] (pushFormat scriptSig) = .ok [pubkey scriptSig, signature scriptSig] := by
  have size := length_pushFormat legacy
  rw [length_eq legacy] at size
  have runs : Runs H flags checker (pushFormat scriptSig) ⟨[], [], 0⟩
      ⟨[pubkey scriptSig, signature scriptSig], [], 0⟩ := by
    rw [pushFormat_eq legacy]
    refine pushTwo (by rw [length_signature legacy]; decide) ?_
    exact pushTwo (by rw [length_pubkey legacy]; decide) (nil _)
  exact runs.evalScript (by rw [size]; decide)

end

end LegacyScriptSig

def Degenerate (data : Bytes) : Prop := isConstant 0x00 data = true ∨ isConstant 0xff data = true

instance (data : Bytes) : Decidable (Degenerate data) := inferInstanceAs (Decidable (_ ∨ _))

section

variable {env : Env} {tx : CTransaction} {inputIdx : Nat} {scriptSig scriptPubKey : Bytes}

lemma checkSig_iff {sig pubkey : Bytes} (sigSize : sig.length = dilithium3SigSize)
    (pkSize : pubkey.length = dilithium3PkSize) :
    checkSig env.hashes env.dilithium3Verify tx inputIdx env.params.chainID sig pubkey = true ↔
      (¬ Degenerate sig ∧ ¬ Degenerate pubkey) ∧
        SignedBy env.hashes env.dilithium3Verify tx inputIdx env.params.chainID sig pubkey := by
  simp only [checkSig, sigSize, pkSize, ne_eq, not_true_eq_false, if_false, Bool.or_eq_true, Degenerate, SignedBy]
  split
  case isTrue constant => simp [constant]
  case isFalse sound =>
    split
    case isTrue constant => simp [constant]
    case isFalse sound' => simp [sound, sound']

lemma length_payToKeyHash (isKeyHash : isPayToPublicKeyHash scriptPubKey = true) : scriptPubKey.length = 25 := by
  simp only [isPayToPublicKeyHash, Bool.and_eq_true, beq_iff_eq] at isKeyHash
  exact isKeyHash.1.1

lemma verifyScript_iff (legacy : isLegacyScriptSig scriptSig = true)
    (isKeyHash : isPayToPublicKeyHash scriptPubKey = true) :
    CTransactionValidator.verifyScript env tx inputIdx scriptSig scriptPubKey = .ok () ↔
      hash160 env.hashes (LegacyScriptSig.pubkey scriptSig) = (scriptPubKey.drop 3).take 20 ∧
        checkSig env.hashes env.dilithium3Verify tx inputIdx env.params.chainID
          (LegacyScriptSig.signature scriptSig) (LegacyScriptSig.pubkey scriptSig) = true := by
  rw [CTransactionValidator.verifyScript, if_neg (by rw [length_payToKeyHash isKeyHash]; decide),
    if_neg (by rw [LegacyScriptSig.length_eq legacy]; decide)]
  exact verifyScript_iff_run isKeyHash (LegacyScriptSig.evalScript_pushFormat legacy)

def Prepared (env : Env) (tx : CTransaction) (inputIdx : Nat) (scriptSig scriptPubKey : Bytes) : Prop :=
  ∃ task, prepareSignatureData env tx inputIdx scriptSig scriptPubKey = .ok task ∧ task.verifySingle env = true

lemma prepared_iff (legacy : isLegacyScriptSig scriptSig = true)
    (isKeyHash : isPayToPublicKeyHash scriptPubKey = true) :
    Prepared env tx inputIdx scriptSig scriptPubKey ↔ LegacyScriptSig.pubkeySize scriptSig = dilithium3PkSize ∧
        hash160 env.hashes (LegacyScriptSig.pubkey scriptSig) = (scriptPubKey.drop 3).take 20 ∧
        SignedBy env.hashes env.dilithium3Verify tx inputIdx env.params.chainID
          (LegacyScriptSig.signature scriptSig) (LegacyScriptSig.pubkey scriptSig) := by
  have sigField : value (scriptSig.take 2) = dilithium3SigSize := by
    simp only [isLegacyScriptSig, Bool.and_eq_true, beq_iff_eq] at legacy
    exact legacy.2
  have isSignature : (scriptSig.drop 2).take dilithium3SigSize = LegacyScriptSig.signature scriptSig := rfl
  have isPubkeySize : value ((scriptSig.drop (2 + dilithium3SigSize)).take 2) =
    LegacyScriptSig.pubkeySize scriptSig := rfl
  have isPubkey : (scriptSig.drop (2 + dilithium3SigSize + 2)).take dilithium3PkSize =
      LegacyScriptSig.pubkey scriptSig :=
    take_of_length_le (Nat.le_of_eq (LegacyScriptSig.length_pubkey legacy))
  have digestSize (digest : Uint256) : digest.data.length = 32 := digest.size
  unfold Prepared prepareSignatureData
  simp only [isSignature, isPubkeySize, isPubkey, length_payToKeyHash isKeyHash, isKeyHash,
    LegacyScriptSig.length_eq legacy, sigField, ne_eq,
    not_true_eq_false, if_false]
  by_cases field : LegacyScriptSig.pubkeySize scriptSig = dilithium3PkSize
  · by_cases hashes : hash160 env.hashes (LegacyScriptSig.pubkey scriptSig) = (scriptPubKey.drop 3).take 20
    · simp [field, hashes, CSignatureTask.verifySingle, LegacyScriptSig.length_signature legacy,
        LegacyScriptSig.length_pubkey legacy, digestSize, SignedBy]
    · rw [if_neg (not_not.mpr field)]
      simp [hashes]
  · simp [field]

end

lemma CUTXOSet.Consistent.steady {set : CUTXOSet} (consistent : set.Consistent) (env : Env) : set.Steady env := by
  intro asked
  induction asked generalizing set with
  | nil => rfl
  | cons outpoint rest ih =>
    obtain ⟨still, cache, same⟩ := consistent.getUTXO env outpoint
    calc (set.afterLookups env (outpoint :: rest)).view env
        = ((set.getUTXO env outpoint).2.afterLookups env rest).view env := rfl
      _ = (set.getUTXO env outpoint).2.view env := ih still
      _ = (set.getUTXO env outpoint).2.held := still.view_eq
      _ = set.held := by rw [same]; rfl
      _ = set.view env := consistent.view_eq.symm

section

variable {env : Env} {view : UTXOLedger} {set : CUTXOSet}

lemma lookup_bind {α : Type} (reads : Reads env view set) (outpoint : COutPoint)
    (next : Option CUTXOEntry → Lookups α) :
    (lookupUTXO env outpoint >>= next) set = next (view outpoint) (set.getUTXO env outpoint).2 := by
  rw [bind_run, ← reads.answers]
  rfl

def FoundWith (view : UTXOLedger) (holds : CUTXOEntry → Prop) (txin : CTxIn) : Prop :=
  ∃ entry, view txin.prevout = some entry ∧ holds entry

def InputsPass (view : UTXOLedger) (passes : Nat → Bytes → Bytes → Prop) (index : Nat) (vin : List CTxIn) : Prop :=
  ∀ input ∈ vin.zipIdx index,
    FoundWith view (fun entry => passes input.2 input.1.scriptSig entry.out.scriptPubKey) input.1

/-- Inputs that are found pay to key hashes and are signed in the legacy form. -/
def AllLegacy (view : UTXOLedger) (vin : List CTxIn) : Prop :=
  ∀ txin ∈ vin, ∀ entry, view txin.prevout = some entry →
    isPayToPublicKeyHash entry.out.scriptPubKey = true ∧ isLegacyScriptSig txin.scriptSig = true

lemma allP2PKH_run (vin : List CTxIn) (reads : Reads env view set) :
    ∃ legacy after, allP2PKH env vin set = (.ok legacy, after) ∧ Reads env view after ∧
      (legacy = true ↔ AllLegacy view vin) := by
  induction vin generalizing set with
  | nil => exact ⟨true, set, rfl, reads, by simp [AllLegacy]⟩
  | cons txin rest ih =>
    obtain ⟨legacy, after, ran, seen, same⟩ := ih (reads.getUTXO txin.prevout)
    unfold allP2PKH
    rw [lookup_bind reads]
    cases found : view txin.prevout with
    | none =>
      refine ⟨legacy, after, ran, seen, same.trans ?_⟩
      simp [AllLegacy, found]
    | some entry =>
      dsimp only
      split
      case isTrue other =>
        refine ⟨false, _, rfl, reads.getUTXO txin.prevout, ?_⟩
        simp only [Bool.false_eq_true, AllLegacy, forall_mem_cons, found, Option.some.injEq, forall_eq', false_iff]
        rintro ⟨⟨isKeyHash, isLegacy⟩, -⟩
        exact other.elim (fun no => no isKeyHash) fun no => no isLegacy
      case isFalse fits =>
        refine ⟨legacy, after, ran, seen, same.trans ?_⟩
        simp only [not_or, not_not] at fits
        simp [AllLegacy, found, fits]

lemma mapError_ok_iff {α : Type} (outcome : Except String α) (change : String → String) (value : α) :
    outcome.mapError change = .ok value ↔ outcome = .ok value := by
  cases outcome <;> simp [Except.mapError]

lemma verifyInputScript_run (tx : CTransaction) (index : Nat) (txin : CTxIn) (reads : Reads env view set) :
    ((verifyInputScript env tx index txin set).1 = .ok () ↔ FoundWith view (fun entry =>
        CTransactionValidator.verifyScript env tx index txin.scriptSig entry.out.scriptPubKey = .ok ()) txin) ∧
    Reads env view (verifyInputScript env tx index txin set).2 := by
  unfold verifyInputScript
  rw [lookup_bind reads]
  cases found : view txin.prevout with
  | none =>
    refine ⟨⟨fun done => (by cases done), ?_⟩, reads.getUTXO txin.prevout⟩
    rintro ⟨entry, isFound, -⟩
    rw [found] at isFound
    cases isFound
  | some entry =>
    dsimp only
    rw [check_run, mapError_ok_iff]
    refine ⟨⟨fun accepted => ⟨entry, found, accepted⟩, ?_⟩, reads.getUTXO txin.prevout⟩
    rintro ⟨other, isFound, accepted⟩
    cases found.symm.trans isFound
    exact accepted

section

variable (tx : CTransaction) (index : Nat) (vin : List CTxIn) (reads : Reads env view set)

include tx index vin reads

lemma verifyInputScripts_iff : (verifyInputScripts env tx index vin set).1 = .ok () ↔
    InputsPass view (CTransactionValidator.verifyScript env tx · · · = .ok ()) index vin := by
  unfold InputsPass
  induction vin generalizing set index with
  | nil => simp [verifyInputScripts, pure, ExceptT.pure, ExceptT.mk, StateT.pure]
  | cons txin rest ih =>
    obtain ⟨here, seen⟩ := verifyInputScript_run tx index txin reads
    unfold verifyInputScripts
    rw [zipIdx_cons, forall_mem_cons, ← here, ← ih (index + 1) seen, bind_ok_iff]
    exact ⟨fun ⟨(), first, others⟩ => ⟨first, others⟩, fun ⟨first, others⟩ => ⟨(), first, others⟩⟩

lemma collectSignatureTasks_iff : (∃ tasks, (collectSignatureTasks env tx index vin set).1 = .ok tasks ∧
      ∀ task ∈ tasks, task.verifySingle env = true) ↔
    InputsPass view (Prepared env tx) index vin := by
  unfold InputsPass
  induction vin generalizing set index with
  | nil => simp [collectSignatureTasks, pure, ExceptT.pure, ExceptT.mk, StateT.pure]
  | cons txin rest ih =>
    have others := ih (index + 1) (reads.getUTXO txin.prevout)
    unfold collectSignatureTasks
    rw [zipIdx_cons, forall_mem_cons, ← others, lookup_bind reads]
    cases found : view txin.prevout with
    | none =>
      refine ⟨fun ⟨tasks, done, _⟩ => (by cases done), ?_⟩
      rintro ⟨⟨entry, isFound, -⟩, -⟩
      rw [found] at isFound
      cases isFound
    | some entry =>
      constructor
      · rintro ⟨tasks, done, verified⟩
        obtain ⟨task, prepared, done⟩ := (bind_ok_iff _ _ _ _).mp done
        obtain ⟨behind, collected, done⟩ := (bind_ok_iff _ _ _ _).mp done
        cases done
        rw [check_run] at prepared collected
        rw [mapError_ok_iff] at prepared
        exact ⟨⟨entry, found, task, prepared, verified task (by simp)⟩, behind, collected,
          fun other member => verified other (mem_cons_of_mem _ member)⟩
      · rintro ⟨⟨other, isFound, task, prepared, first⟩, behind, collected, verified⟩
        cases found.symm.trans isFound
        refine ⟨task :: behind, ?_, forall_mem_cons.mpr ⟨first, verified⟩⟩
        refine (bind_ok_iff _ _ _ _).mpr ⟨task, ?_, (bind_ok_iff _ _ _ _).mpr ⟨behind, ?_, rfl⟩⟩
        · rw [check_run, mapError_ok_iff]
          exact prepared
        · rw [check_run]
          exact collected

/-- The tasks are a matter of what the set answers. -/
lemma collectSignatureTasks_congr {other : CUTXOSet} (readsToo : Reads env view other) (tasks : List CSignatureTask) :
    (collectSignatureTasks env tx index vin set).1 = .ok tasks ↔
    (collectSignatureTasks env tx index vin other).1 = .ok tasks := by
  induction vin generalizing set other index tasks with
  | nil => rfl
  | cons txin rest ih =>
    have others := ih (index + 1) (reads.getUTXO txin.prevout) (readsToo.getUTXO txin.prevout)
    unfold collectSignatureTasks
    rw [lookup_bind reads, lookup_bind readsToo]
    cases view txin.prevout with
    | none => rfl
    | some entry =>
      simp only [bind_ok_iff, check_run, others]
      rfl

end

def CTransactionValidator.Accepts (env : Env) (context : ValidationContext) (tx : CTransaction) (currentHeight : UInt32)
    (set : CUTXOSet) : Prop :=
  ∃ txFee, (checkTransaction env context tx currentHeight set).1 = .ok txFee

structure ReachesScripts (env : Env) (context : ValidationContext) (tx : CTransaction) (currentHeight : UInt32)
    (set : CUTXOSet) : Prop where
  basic : checkTransactionBasic tx = .ok ()
  inputs : ∃ txFee, (checkTransactionInputs env context tx currentHeight set).1 = .ok txFee
  count : tx.vin.length ≤ maxInputCountPerTx
  outputs : checkOutputScripts env tx currentHeight = .ok ()

variable {context : ValidationContext} {tx : CTransaction} {currentHeight : UInt32}

lemma accepts_iff_scripts (spends : tx.isCoinBase = false) :
    CTransactionValidator.Accepts env context tx currentHeight set ↔ checkTransactionBasic tx = .ok () ∧
      (∃ txFee, (checkTransactionInputs env context tx currentHeight set).1 = .ok txFee) ∧
      (checkScripts env context tx currentHeight
        (checkTransactionInputs env context tx currentHeight set).2).1 = .ok () := by
  have enters : onlyIf (¬ tx.isCoinBase) (checkScripts env context tx currentHeight) =
      checkScripts env context tx currentHeight := if_pos (by simp [spends])
  unfold CTransactionValidator.Accepts checkTransaction
  simp only [enters, bind_ok_iff, check_run]
  constructor
  · rintro ⟨txFee, ⟨⟩, basic, fee, inputs, ⟨⟩, scripts, done⟩
    exact ⟨basic, ⟨fee, inputs⟩, scripts⟩
  · rintro ⟨basic, ⟨fee, inputs⟩, scripts⟩
    exact ⟨fee, (), basic, fee, inputs, (), scripts, rfl⟩

/-- The last stage of the script checks, after the scan of the inputs. -/
lemma checkScripts_iff (reads : Reads env view set) {holds : Prop}
    (last : ∀ legacy after, (legacy = true ↔ AllLegacy view tx.vin) → Reads env view after →
      (((match context.batchVerifier with
          | none => verifyInputScripts env tx 0 tx.vin
          | some wait =>
            if legacy ∧ 2 ≤ tx.vin.length then do
              let tasks ← collectSignatureTasks env tx 0 tx.vin
              check (wait tasks)
            else verifyInputScripts env tx 0 tx.vin) after).1 = .ok () ↔ holds)) :
    (checkScripts env context tx currentHeight set).1 = .ok () ↔ tx.vin.length ≤ maxInputCountPerTx ∧
      checkOutputScripts env tx currentHeight = .ok () ∧ holds := by
  obtain ⟨legacy, after, scanned, seen, isLegacy⟩ := allP2PKH_run tx.vin reads
  unfold checkScripts
  rw [← last legacy after isLegacy seen, bind_ok_iff, refuse_run]
  have counted : ((if maxInputCountPerTx < tx.vin.length then
      .error "Transaction has too many inputs (DoS protection limit exceeded)" else .ok () : Check) = .ok ()) ↔
      tx.vin.length ≤ maxInputCountPerTx := by
    split <;> simp_all
  constructor
  · rintro ⟨⟨⟩, few, done⟩
    obtain ⟨⟨⟩, outputs, done⟩ := (bind_ok_iff _ _ _ _).mp done
    obtain ⟨found, scan, done⟩ := (bind_ok_iff _ _ _ _).mp done
    rw [check_run] at outputs scan done
    rw [scanned] at scan done
    cases scan
    exact ⟨counted.mp few, outputs, done⟩
  · rintro ⟨few, outputs, done⟩
    refine ⟨(), counted.mpr few, (bind_ok_iff _ _ _ _).mpr ⟨(), ?_, (bind_ok_iff _ _ _ _).mpr ⟨legacy, ?_, ?_⟩⟩⟩
    · rw [check_run]
      exact outputs
    · rw [check_run, scanned]
    · rw [check_run, scanned]
      exact done

def SignedInput (env : Env) (view : UTXOLedger) (tx : CTransaction) (input : CTxIn × Nat) : Prop :=
  FoundWith view (fun entry =>
    hash160 env.hashes (LegacyScriptSig.pubkey input.1.scriptSig) = (entry.out.scriptPubKey.drop 3).take 20 ∧
      SignedBy env.hashes env.dilithium3Verify tx input.2 env.params.chainID
        (LegacyScriptSig.signature input.1.scriptSig)
        (LegacyScriptSig.pubkey input.1.scriptSig)) input.1

def PubkeySizeRight (txin : CTxIn) : Prop := LegacyScriptSig.pubkeySize txin.scriptSig = dilithium3PkSize

def NonDegenerate (txin : CTxIn) : Prop :=
  ¬ Degenerate (LegacyScriptSig.signature txin.scriptSig) ∧ ¬ Degenerate (LegacyScriptSig.pubkey txin.scriptSig)

variable {extra : CTxIn → Prop}

lemma forall_zipIdx_iff {good : CTxIn × Nat → Prop} (vin : List CTxIn) (index : Nat) :
    (∀ input ∈ vin.zipIdx index, good input ∧ extra input.1) ↔
      (∀ input ∈ vin.zipIdx index, good input) ∧ ∀ txin ∈ vin, extra txin := by
  induction vin generalizing index with
  | nil => simp
  | cons txin rest ih =>
    simp only [zipIdx_cons, forall_mem_cons, ih (index + 1)]
    tauto

lemma inputsPass_iff (isLegacy : AllLegacy view tx.vin) {passes : Nat → Bytes → Bytes → Prop}
    (each : ∀ {index txin scriptPubKey}, isLegacyScriptSig txin.scriptSig = true →
      isPayToPublicKeyHash scriptPubKey = true →
      (passes index txin.scriptSig scriptPubKey ↔ extra txin ∧
        hash160 env.hashes (LegacyScriptSig.pubkey txin.scriptSig) = (scriptPubKey.drop 3).take 20 ∧
        SignedBy env.hashes env.dilithium3Verify tx index env.params.chainID (LegacyScriptSig.signature txin.scriptSig)
          (LegacyScriptSig.pubkey txin.scriptSig))) :
    InputsPass view passes 0 tx.vin ↔
      (∀ input ∈ tx.vin.zipIdx, SignedInput env view tx input) ∧ ∀ txin ∈ tx.vin, extra txin := by
  rw [← forall_zipIdx_iff]
  refine forall₂_congr fun input member => ?_
  have isInput : input.1 ∈ tx.vin := fst_mem_of_mem_zipIdx member
  constructor
  · rintro ⟨entry, found, passed⟩
    obtain ⟨isKeyHash, legacy⟩ := isLegacy input.1 isInput entry found
    obtain ⟨extra, signed⟩ := (each legacy isKeyHash).mp passed
    exact ⟨⟨entry, found, signed⟩, extra⟩
  · rintro ⟨⟨entry, found, signed⟩, extra⟩
    obtain ⟨isKeyHash, legacy⟩ := isLegacy input.1 isInput entry found
    exact ⟨entry, found, (each legacy isKeyHash).mpr ⟨extra, signed⟩⟩

lemma verified_iff (isLegacy : AllLegacy view tx.vin) :
    InputsPass view (CTransactionValidator.verifyScript env tx · · · = .ok ()) 0 tx.vin ↔
      (∀ input ∈ tx.vin.zipIdx, SignedInput env view tx input) ∧ ∀ txin ∈ tx.vin, NonDegenerate txin := by
  refine inputsPass_iff isLegacy fun legacy isKeyHash => ?_
  rw [verifyScript_iff legacy isKeyHash, checkSig_iff (LegacyScriptSig.length_signature legacy)
    (LegacyScriptSig.length_pubkey legacy)]
  exact and_left_comm

variable (reads : Reads env view set) (spends : tx.isCoinBase = false)

include reads spends

lemma accepts_iff (verifier : Option (List CSignatureTask → Check)) {holds : Prop}
    (scripts : ∀ after, Reads env view after →
      ((checkScripts env { context with batchVerifier := verifier } tx currentHeight after).1 = .ok () ↔
        tx.vin.length ≤ maxInputCountPerTx ∧
        checkOutputScripts env tx currentHeight = .ok () ∧ holds)) :
    CTransactionValidator.Accepts env { context with batchVerifier := verifier } tx currentHeight set ↔
      ReachesScripts env context tx currentHeight set ∧ holds := by
  have looks : ∀ set outpoint, Reads env view set → Reads env view (set.getUTXO env outpoint).2 :=
    fun _ outpoint seen => seen.getUTXO outpoint
  have looked := checkTransactionInputs_looks looks { context with batchVerifier := verifier } tx
    currentHeight set reads
  rw [accepts_iff_scripts spends, scripts _ looked.1]
  exact ⟨fun ⟨basic, inputs, count, outputs, held⟩ => ⟨⟨basic, inputs, count, outputs⟩, held⟩,
    fun ⟨⟨basic, inputs, count, outputs⟩, held⟩ => ⟨basic, inputs, count, outputs, held⟩⟩

lemma accepts_sequential :
    CTransactionValidator.Accepts env { context with batchVerifier := none } tx currentHeight set ↔
      ReachesScripts env context tx currentHeight set ∧
      InputsPass view (CTransactionValidator.verifyScript env tx · · · = .ok ()) 0 tx.vin := by
  refine accepts_iff reads spends none fun after seen => checkScripts_iff seen fun legacy last _ lastSeen => ?_
  exact verifyInputScripts_iff tx 0 tx.vin lastSeen

variable {wait : List CSignatureTask → Check}

/-- With a verifier at hand, an unbatched transaction is checked as without. -/
lemma accepts_unbatched (unbatched : ¬ (AllLegacy view tx.vin ∧ 2 ≤ tx.vin.length)) :
    CTransactionValidator.Accepts env { context with batchVerifier := some wait } tx currentHeight set ↔
      ReachesScripts env context tx currentHeight set ∧
      InputsPass view (CTransactionValidator.verifyScript env tx · · · = .ok ()) 0 tx.vin := by
  refine accepts_iff reads spends (some wait) fun after seen =>
    checkScripts_iff seen fun legacy last isLegacy lastSeen => ?_
  dsimp only
  rw [if_neg (by rw [isLegacy]; exact unbatched)]
  exact verifyInputScripts_iff tx 0 tx.vin lastSeen

lemma accepts_batched {session : Session} (quiet : ∀ ticket, ¬ session.verifier.Unfinished ticket)
    (answers : ∀ tasks, (collectSignatureTasks env tx 0 tx.vin set).1 = .ok tasks →
      session.Answers env tasks (wait tasks))
    (batched : AllLegacy view tx.vin ∧ 2 ≤ tx.vin.length) :
    CTransactionValidator.Accepts env { context with batchVerifier := some wait } tx currentHeight set ↔
      ReachesScripts env context tx currentHeight set ∧
      InputsPass view (Prepared env tx) 0 tx.vin := by
  refine accepts_iff reads spends (some wait) fun after seen =>
    checkScripts_iff seen fun legacy last isLegacy lastSeen => ?_
  dsimp only
  rw [if_pos (by rw [isLegacy]; exact batched), ← collectSignatureTasks_iff tx 0 tx.vin lastSeen, bind_ok_iff]
  refine exists_congr fun tasks => and_congr_right fun collected => ?_
  rw [check_run]
  exact (answers tasks ((collectSignatureTasks_congr tx 0 tx.vin reads lastSeen tasks).mpr collected)).ok_iff quiet

end

/-- The answer for a batch, with the error of the first signature that fails. -/
def batchAnswer (env : Env) (tasks : List CSignatureTask) : Check :=
  match tasks.find? fun task => !task.verifySingle env with
  | none => .ok ()
  | some task => .error ("Signature verification failed for input " ++ toString task.inputIndex)

def acceptingEnv : Env where
  hashes := lengthHash
  dilithium3Verify _ _ _ := true

def pairedSet : CUTXOSet :=
  let entry : CUTXOEntry := ⟨⟨1000000, keyHashScript⟩, 1, false⟩
  { emptySet with
    db := ((∅ : Table Bytes Bytes).insert (serializeOutPoint ⟨Uint256.ofNat 1, 0⟩) (serializeUTXOEntry entry)).insert
      (serializeOutPoint ⟨Uint256.ofNat 2, 0⟩) (serializeUTXOEntry entry) }

lemma pairedSet_coherent : pairedSet.Coherent where
  isOpen := rfl
  additions := rfl
  deletions := rfl
  cached := fun _ _ hit => (by cases hit)

def pairedPayment (scriptSig : Bytes) : CTransaction :=
  ⟨1, [⟨⟨Uint256.ofNat 1, 0⟩, scriptSig, 0xFFFFFFFF⟩, ⟨⟨Uint256.ofNat 2, 0⟩, scriptSig, 0xFFFFFFFF⟩],
    [⟨1900000, keyHashScript⟩], 0⟩

def misnamedScriptSig : Bytes :=
  encode 2 dilithium3SigSize ++ List.replicate dilithium3SigSize 1 ++ [0, 0] ++ List.replicate dilithium3PkSize 2

def zeroKeyScriptSig : Bytes :=
  encode 2 dilithium3SigSize ++ List.replicate dilithium3SigSize 1 ++ encode 2 dilithium3PkSize ++
    List.replicate dilithium3PkSize 0

end Dilithion
